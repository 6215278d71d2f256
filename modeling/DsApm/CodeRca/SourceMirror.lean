import DsApm.Lib.FilePath
import DsApm.Lib.GoStd
import DsApm.Lib.Uuid
/-!
# SourceMirror — where a repository's mirror and its checkouts are

`sourcestate`: the mirror of a repository is kept in a directory named after its organization and its id, with what could lead out
of the base directory written as `_`.  No path leads out; but different names are written alike, and an organization named `.` has
no directory of its own: which mirrors are apart is said exactly (`isolated_iff`).
-/
namespace DsApm
namespace CodeRca

open GoStd FilePath List

structure CodebaseRepo where
  contractVersion : String := "ds.codebase_repo.v1"
  orgID : String
  repoID : String
  gitURL : String
  credential : String := ""
  deriving DecidableEq, Repr

def maxSecretLen : Nat := 8192

def looksLikeGitURL (s : String) : Bool := contains s.toList "://".toList || contains s.toList "@".toList

def validateCodebaseRepo (repo : CodebaseRepo) (encryptionAvailable : Bool) : List String :=
  (if trimSpace repo.contractVersion = "ds.codebase_repo.v1" then []
  else ["contractVersion: must be \"ds.codebase_repo.v1\", got " ++ quote repo.contractVersion]) ++
  (if isBlank repo.orgID then ["orgId: must not be empty"] else []) ++
  (if isBlank repo.repoID then ["repoId: must not be empty"] else []) ++
  (if isBlank repo.gitURL then ["gitUrl: must not be empty"]
  else if looksLikeGitURL repo.gitURL then []
  else ["gitUrl: " ++ quote repo.gitURL ++ " is not a valid git remote (need scheme:// or user@host:path)"]) ++
  (if maxSecretLen < repo.credential.utf8ByteSize then
    ["credential: exceeds 8192-byte limit (got " ++ toString repo.credential.utf8ByteSize ++ ")"]
  else []) ++
  (if repo.credential.toList.any (fun c => c == '\r' || c == '\n') then ["credential: must not contain CR or LF"] else []) ++
  (if repo.credential ≠ "" ∧ encryptionAvailable = false then
    ["credential: encryption is not configured (DS_APM_AI_CONFIG_ENCRYPTION_KEY); refusing to store a git credential in plaintext"]
  else [])

structure RegisteredRepo extends CodebaseRepo where
  valid : ∃ encryptionAvailable, validateCodebaseRepo toCodebaseRepo encryptionAvailable = []

/-! ## Directories -/

def replaceUps : List Char → List Char
  | '.' :: '.' :: s => '_' :: replaceUps s
  | c :: s => c :: replaceUps s
  | [] => []

/-- A name with what separates paths and leads up in them written as "_". -/
def masked (s : List Char) : List Char :=
  replaceUps ((s.map fun c => if c = '/' then '_' else c).map fun c => if c = '\\' then '_' else c)

def sanitizePathComponent (s : List Char) : List Char := if masked s = [] then ['_'] else masked s

def gitSuffix : List Char := ['.', 'g', 'i', 't']

def mirrorDir (baseDir : List Char) (repo : CodebaseRepo) : List Char :=
  join [baseDir, sanitizePathComponent repo.orgID.toList, sanitizePathComponent repo.repoID.toList ++ gitSuffix]

/-- The checkout of a run; `b` is the random number that is written in hex. -/
def uniqueCheckoutDir (checkoutBase : List Char) (repo : CodebaseRepo) (b : Nat) : List Char :=
  join [checkoutBase, sanitizePathComponent repo.orgID.toList, sanitizePathComponent repo.repoID.toList, UUID.hex 16 b]

def cleanSubpath (sub : String) : List Char :=
  if trimSpace sub = "" then [] else (clean ('/' :: (trimSpace sub).toList)).drop 1

def checkoutDir (dest : List Char) (sub : String) : List Char :=
  if cleanSubpath sub = [] then dest else join [dest, cleanSubpath sub]

/-! ## Names that are written alike -/

def marks : List (List Char) := [['_'], ['/'], ['\\'], ['.', '.']]

/-- The first text is the second with marks in other marks' places, and `suffix` after it. -/
inductive Alike (suffix : List Char) : List Char → List Char → Prop where
  | nil : Alike suffix suffix []
  | mark {u v s t : List Char} (hu : u ∈ marks) (hv : v ∈ marks) (h : Alike suffix s t) : Alike suffix (u ++ s) (v ++ t)
  | same {c : Char} {s t : List Char} (hc : [c] ∉ marks) (hdot : c = '.' → s.head? ≠ some '.' ∧ t.head? ≠ some '.')
      (h : Alike suffix s t) : Alike suffix (c :: s) (c :: t)

theorem masked_mark {u : List Char} (hu : u ∈ marks) (s : List Char) : masked (u ++ s) = '_' :: masked s := by
  simp only [marks, mem_cons, not_mem_nil, or_false] at hu
  rcases hu with rfl | rfl | rfl | rfl <;> simp [masked, replaceUps]

theorem masked_same {c : Char} {s : List Char} (hc : [c] ∉ marks) (hdot : c = '.' → s.head? ≠ some '.') :
    masked (c :: s) = c :: masked s := by
  simp only [marks, mem_cons, List.cons.injEq, and_true, not_mem_nil, or_false, not_or] at hc
  cases s with
  | nil => simp [masked, replaceUps, hc.2.1, hc.2.2.1]
  | cons d s =>
    have hnot : c = '.' → d ≠ '.' := fun h hd => hdot h (hd ▸ rfl)
    simp only [masked, map_cons, if_neg hc.2.1, if_neg hc.2.2.1]
    rw [replaceUps]
    intro t hdot' hrest
    have hd : (if (if d = '/' then '_' else d) = '\\' then '_' else if d = '/' then '_' else d) = '.' := (List.cons.inj hrest).1
    refine hnot hdot' ?_
    by_cases h1 : d = '/'
    · simp [h1] at hd
    · by_cases h2 : d = '\\'
      · simp [h2] at hd
      · simpa [h1, h2] using hd

theorem name_cases : ∀ s : List Char, s = [] ∨ (∃ u ∈ marks, ∃ t, s = u ++ t) ∨
    ∃ c t, [c] ∉ marks ∧ (c = '.' → t.head? ≠ some '.') ∧ s = c :: t
  | [] => .inl rfl
  | c :: s => by
    by_cases hc : [c] ∈ marks
    · exact .inr (.inl ⟨[c], hc, s, rfl⟩)
    · by_cases hdot : c = '.' ∧ s.head? = some '.'
      · obtain ⟨rfl, hs⟩ := hdot
        obtain ⟨t, rfl⟩ := List.head?_eq_some_iff.1 hs
        exact .inr (.inl ⟨['.', '.'], by decide, t, rfl⟩)
      · exact .inr (.inr ⟨c, s, hc, fun h hs => hdot ⟨h, hs⟩, rfl⟩)

theorem underscore_of_not_mark {c : Char} (hc : [c] ∉ marks) : c ≠ '_' := fun h => hc (h ▸ by decide)

theorem length_mark {u : List Char} (hu : u ∈ marks) : 0 < u.length := by
  simp only [marks, mem_cons, not_mem_nil, or_false] at hu
  rcases hu with rfl | rfl | rfl | rfl <;> decide

theorem masked_eq_self (s : List Char) (h : '_' ∉ masked s) : masked s = s := by
  rcases name_cases s with rfl | ⟨u, hu, t, rfl⟩ | ⟨c, t, hc, hdot, rfl⟩
  · rfl
  · rw [masked_mark hu] at h
    exact absurd mem_cons_self h
  · rw [masked_same hc hdot] at h ⊢
    rw [masked_eq_self t fun hmem => h (mem_cons_of_mem _ hmem)]
termination_by s.length

/-- **Names are written alike** exactly when they are, up to which mark stands where. -/
theorem masked_append_iff {suffix : List Char} (hmask : masked suffix = suffix) (hmark : '_' ∉ suffix) (s t : List Char) :
    masked s = masked t ++ suffix ↔ Alike suffix s t := by
  constructor
  · intro h
    rcases name_cases t with rfl | ⟨v, hv, t, rfl⟩ | ⟨c, t, hc, hdot, rfl⟩
    · have hs : masked s = suffix := h
      rw [← masked_eq_self s (hs ▸ hmark), hs]
      exact .nil
    · rw [masked_mark hv, cons_append] at h
      rcases name_cases s with rfl | ⟨u, hu, s, rfl⟩ | ⟨c, s, hc, hdot, rfl⟩
      · cases h
      · rw [masked_mark hu] at h
        have := length_mark hv
        exact .mark hu hv ((masked_append_iff hmask hmark s t).1 (List.cons.inj h).2)
      · rw [masked_same hc hdot] at h
        exact absurd (List.cons.inj h).1 (underscore_of_not_mark hc)
    · rw [masked_same hc hdot, cons_append] at h
      rcases name_cases s with rfl | ⟨u, hu, s, rfl⟩ | ⟨d, s, hd, hdot', rfl⟩
      · cases h
      · rw [masked_mark hu] at h
        exact absurd (List.cons.inj h).1.symm (underscore_of_not_mark hc)
      · rw [masked_same hd hdot'] at h
        obtain ⟨rfl, hrest⟩ := List.cons.inj h
        exact .same hd (fun h => ⟨hdot' h, hdot h⟩) ((masked_append_iff hmask hmark s t).1 hrest)
  · intro h
    induction h with
    | nil => exact hmask
    | mark hu hv h ih => rw [masked_mark hu, masked_mark hv, ih, cons_append]
    | same hc hdot h ih =>
      rw [masked_same hc fun h => (hdot h).1, masked_same hc fun h => (hdot h).2, ih, cons_append]
termination_by t.length
decreasing_by
  all_goals
    subst_vars
    simp only [List.length_append, length_cons]
    omega

/-! ## The elements of a directory -/

theorem slash_masked (s : List Char) : '/' ∉ masked s := by
  rcases name_cases s with rfl | ⟨u, hu, t, rfl⟩ | ⟨c, t, hc, hdot, rfl⟩
  · exact not_mem_nil
  · have := length_mark hu
    rw [masked_mark hu, mem_cons, not_or]
    exact ⟨by decide, slash_masked t⟩
  · rw [masked_same hc hdot, mem_cons, not_or]
    exact ⟨fun h => hc (h ▸ by decide), slash_masked t⟩
termination_by s.length
decreasing_by
  all_goals
    subst_vars
    simp only [List.length_append, length_cons]
    omega

theorem masked_ne_nil {s : List Char} (h : s ≠ []) : masked s ≠ [] := by
  rcases name_cases s with rfl | ⟨u, hu, t, rfl⟩ | ⟨c, t, hc, hdot, rfl⟩
  · exact absurd rfl h
  · rw [masked_mark hu]
    exact cons_ne_nil _ _
  · rw [masked_same hc hdot]
    exact cons_ne_nil _ _

theorem masked_ne_up (s : List Char) : masked s ≠ ['.', '.'] := by
  intro h
  have hself := masked_eq_self s (h ▸ by decide)
  rw [h] at hself
  rw [← hself] at h
  revert h
  decide

/-- **An element leads down, or nowhere.** -/
theorem sanitize_name (s : List Char) : IsName (sanitizePathComponent s) ∨ sanitizePathComponent s = ['.'] := by
  unfold sanitizePathComponent
  by_cases hnil : masked s = []
  · rw [if_pos hnil]
    exact .inl ⟨by decide, by decide, by decide, by decide⟩
  · rw [if_neg hnil, or_iff_not_imp_right]
    exact fun hhere => ⟨hnil, hhere, masked_ne_up s, slash_masked s⟩

theorem sanitize_eq_masked {s : List Char} (h : s ≠ []) : sanitizePathComponent s = masked s := if_neg (masked_ne_nil h)

theorem sanitize_eq_here {s : List Char} : sanitizePathComponent s = ['.'] ↔ s = ['.'] := by
  constructor
  · intro h
    unfold sanitizePathComponent at h
    split at h
    · cases h
    · rw [← masked_eq_self s (h ▸ by decide), h]
  · rintro rfl
    decide

theorem git_name (s : List Char) : IsName (sanitizePathComponent s ++ gitSuffix) := by
  have hlen : ∀ e : List Char, e.length < 4 → sanitizePathComponent s ++ gitSuffix ≠ e := by
    rintro e he rfl
    rw [List.length_append] at he
    exact absurd (Nat.lt_of_le_of_lt (Nat.le_add_left 4 _) he) (Nat.lt_irrefl 4)
  have hslash : '/' ∉ sanitizePathComponent s := by
    rcases sanitize_name s with h | h
    · exact h.slash
    · rw [h]
      decide
  refine ⟨hlen _ (by decide), hlen _ (by decide), hlen _ (by decide), ?_⟩
  rw [mem_append, not_or]
  exact ⟨hslash, by decide⟩

theorem hex_name (b : Nat) : IsName (UUID.hex 16 b) := by
  have hlen := UUID.length_hex 16 b
  have hdigit : '/' ∉ UUID.hex 16 b := fun hmem => absurd (UUID.isDigit_of_mem_hex hmem) (by decide)
  refine ⟨fun h => ?_, fun h => ?_, fun h => ?_, hdigit⟩ <;> simp [h] at hlen

/-! ## Mirrors and checkouts -/

def CodebaseRepo.elems (repo : CodebaseRepo) : List (List Char) :=
  [sanitizePathComponent repo.orgID.toList, sanitizePathComponent repo.repoID.toList ++ gitSuffix]

def CodebaseRepo.below (repo : CodebaseRepo) : List (List Char) := repo.elems.filter fun e => decide (e ≠ ['.'])

theorem elems_names (repo : CodebaseRepo) : ∀ e ∈ repo.elems, IsName e ∨ e = ['.'] := by
  simpa [CodebaseRepo.elems] using ⟨sanitize_name repo.orgID.toList, .inl (git_name repo.repoID.toList)⟩

theorem read_mirrorDir (baseDir : List Char) (repo : CodebaseRepo) :
    read (mirrorDir baseDir repo) = (read baseDir).down repo.below :=
  read_join_elems baseDir (cons_ne_nil _ _) (elems_names repo)

theorem below_here {repo : CodebaseRepo} (h : repo.orgID = ".") :
    repo.below = [sanitizePathComponent repo.repoID.toList ++ gitSuffix] := by
  have horg : sanitizePathComponent repo.orgID.toList = ['.'] := by
    rw [h]
    decide
  simp [CodebaseRepo.below, CodebaseRepo.elems, horg, (git_name repo.repoID.toList).here]

theorem below_of_ne {repo : CodebaseRepo} (h : repo.orgID ≠ ".") : repo.below = repo.elems := by
  have horg : sanitizePathComponent repo.orgID.toList ≠ ['.'] := by
    rw [ne_eq, sanitize_eq_here]
    exact fun h' => h (String.toList_inj.1 h')
  simp [CodebaseRepo.below, CodebaseRepo.elems, horg, (git_name repo.repoID.toList).here]

theorem below_ne_nil (repo : CodebaseRepo) : repo.below ≠ [] := by
  by_cases h : repo.orgID = "."
  · rw [below_here h]
    exact cons_ne_nil _ _
  · rw [below_of_ne h]
    exact cons_ne_nil _ _

/-- **A mirror is inside the base.** -/
theorem mirrorDir_within (baseDir : List Char) (repo : CodebaseRepo) :
    StrictlyWithin (read baseDir) (read (mirrorDir baseDir repo)) :=
  ⟨repo.below, below_ne_nil repo, isName_of_mem_filter (elems_names repo), read_mirrorDir baseDir repo⟩

/-- **A run's checkout is inside the base.** -/
theorem uniqueCheckoutDir_within (checkoutBase : List Char) (repo : CodebaseRepo) (b : Nat) :
    StrictlyWithin (read checkoutBase) (read (uniqueCheckoutDir checkoutBase repo b)) := by
  have helems : ∀ e ∈ [sanitizePathComponent repo.orgID.toList, sanitizePathComponent repo.repoID.toList, UUID.hex 16 b],
      IsName e ∨ e = ['.'] := by
    simpa using ⟨sanitize_name repo.orgID.toList, sanitize_name repo.repoID.toList, .inl (hex_name b)⟩
  refine ⟨_, ne_nil_of_mem (a := UUID.hex 16 b) ?_, isName_of_mem_filter helems,
    read_join_elems checkoutBase (cons_ne_nil _ _) helems⟩
  simpa using (hex_name b).here

theorem cleanSubpath_eq (sub : String) : cleanSubpath sub = [] ∨
    ∃ ns, ns ≠ [] ∧ (∀ n ∈ ns, IsName n) ∧ cleanSubpath sub = ['/'].intercalate ns := by
  unfold cleanSubpath
  split
  · exact .inl rfl
  · have hnames := isName_of_rooted (normal_read ('/' :: (trimSpace sub).toList)) rfl
    rw [clean_slash, drop_succ_cons, drop_zero]
    by_cases hnil : (read ('/' :: (trimSpace sub).toList)).names = []
    · rw [hnil]
      exact .inl rfl
    · exact .inr ⟨_, hnil, hnames, rfl⟩

/-- **A subpath stays inside the checkout.** -/
theorem checkoutDir_within (dest : List Char) (sub : String) : Within (read dest) (read (checkoutDir dest sub)) := by
  unfold checkoutDir
  split
  · exact ⟨[], nofun, by simp [Path.down]⟩
  · rename_i hsub
    obtain ⟨ns, hns, hnames, hsub'⟩ := (cleanSubpath_eq sub).resolve_left hsub
    have hsplit : [cleanSubpath sub].flatMap (List.splitOn '/') = ns := by
      rw [hsub', flatMap_singleton, (Separated.splitOn_intercalate_iff hns).2 fun n hn => (hnames n hn).slash]
    have helems : ∀ e ∈ [cleanSubpath sub].flatMap (List.splitOn '/'), IsName e ∨ e = ['.'] := by
      rw [hsplit]
      exact fun n hn => .inl (hnames n hn)
    exact ⟨_, isName_of_mem_filter helems, read_join dest (cons_ne_nil _ _) helems⟩

/-! ## Isolation -/

structure Apart (d d' : List Char) : Prop where
  ne : d ≠ d'
  within : ¬Within (read d) (read d') ∧ ¬Within (read d') (read d)

/-- What isolates two repositories: their mirrors are apart, and every path stays where it belongs. -/
structure Isolated (baseDir checkoutBase : List Char) (repo repo' : CodebaseRepo) : Prop where
  apart : Apart (mirrorDir baseDir repo) (mirrorDir baseDir repo')
  mirrors : StrictlyWithin (read baseDir) (read (mirrorDir baseDir repo)) ∧
    StrictlyWithin (read baseDir) (read (mirrorDir baseDir repo'))
  checkouts : ∀ b, StrictlyWithin (read checkoutBase) (read (uniqueCheckoutDir checkoutBase repo b)) ∧
    StrictlyWithin (read checkoutBase) (read (uniqueCheckoutDir checkoutBase repo' b))
  subpaths : ∀ dest sub, Within (read dest) (read (checkoutDir dest sub))

/-- The repositories' names are alike, or an organization leads nowhere and the other's directory is like its mirror. -/
def Clash (repo repo' : CodebaseRepo) : Prop :=
  (Alike [] repo.orgID.toList repo'.orgID.toList ∧ Alike [] repo.repoID.toList repo'.repoID.toList) ∨
  (repo.orgID = "." ∧ Alike gitSuffix repo'.orgID.toList repo.repoID.toList) ∨
  (repo'.orgID = "." ∧ Alike gitSuffix repo.orgID.toList repo'.repoID.toList)

theorem apart_iff (baseDir : List Char) (repo repo' : CodebaseRepo) :
    Apart (mirrorDir baseDir repo) (mirrorDir baseDir repo') ↔ ¬(repo.below <+: repo'.below ∨ repo'.below <+: repo.below) := by
  have hwithin (r r' : CodebaseRepo) : Within (read (mirrorDir baseDir r)) (read (mirrorDir baseDir r')) ↔ r.below <+: r'.below := by
    rw [read_mirrorDir, read_mirrorDir]
    exact within_down_iff (isName_of_mem_filter (elems_names r'))
  rw [not_or, ← hwithin repo repo', ← hwithin repo' repo]
  constructor
  · exact Apart.within
  · intro h
    refine ⟨fun heq => h.1 ?_, h⟩
    rw [heq]
    exact (hwithin repo' repo').2 prefix_rfl

theorem alike_iff {s t : List Char} : Alike [] s t ↔ masked s = masked t := by
  rw [← masked_append_iff rfl not_mem_nil, append_nil]

theorem alike_git_iff {s t : List Char} : Alike gitSuffix s t ↔ masked s = masked t ++ gitSuffix :=
  (masked_append_iff (by decide) (by decide) s t).symm

theorem names_ne_nil (repo : RegisteredRepo) : repo.orgID.toList ≠ [] ∧ repo.repoID.toList ≠ [] := by
  obtain ⟨enc, hvalid⟩ := repo.valid
  unfold validateCodebaseRepo at hvalid
  simp only [append_eq_nil_iff] at hvalid
  obtain ⟨⟨⟨⟨⟨⟨-, horg⟩, hrepo⟩, -⟩, -⟩, -⟩, -⟩ := hvalid
  refine ⟨fun h => ?_, fun h => ?_⟩
  · simp [isBlank, h] at horg
  · simp [isBlank, h] at hrepo

theorem masked_eq_here {repo : CodebaseRepo} (h : masked repo.orgID.toList = ['.']) : repo.orgID = "." := by
  rw [← String.toList_inj, ← masked_eq_self repo.orgID.toList (h ▸ by decide), h]
  rfl

theorem elems_eq (repo : RegisteredRepo) :
    repo.elems = [masked repo.orgID.toList, masked repo.repoID.toList ++ gitSuffix] := by
  obtain ⟨horg, hrepo⟩ := names_ne_nil repo
  rw [CodebaseRepo.elems, sanitize_eq_masked horg, sanitize_eq_masked hrepo]

theorem below_eq_here {repo : RegisteredRepo} (h : repo.orgID = ".") : repo.below = [masked repo.repoID.toList ++ gitSuffix] := by
  rw [below_here h, sanitize_eq_masked (names_ne_nil repo).2]

theorem below_eq_of_ne {repo : RegisteredRepo} (h : repo.orgID ≠ ".") :
    repo.below = [masked repo.orgID.toList, masked repo.repoID.toList ++ gitSuffix] := by
  rw [below_of_ne h, elems_eq]

theorem clash_of_here {repo repo' : RegisteredRepo} (h : repo.orgID = ".") (h' : repo'.orgID ≠ ".") :
    Clash repo.toCodebaseRepo repo'.toCodebaseRepo ↔ repo.below <+: repo'.below ∨ repo'.below <+: repo.below := by
  have halike : ¬Alike [] repo.orgID.toList repo'.orgID.toList := by
    rw [alike_iff, h]
    exact fun hmask => h' (masked_eq_here hmask.symm)
  rw [below_eq_here h, below_eq_of_ne h', Clash, or_iff_right (fun hc => halike hc.1), alike_git_iff, alike_git_iff]
  simp [h, h', eq_comm]

/-- **Names clash** exactly when one mirror goes on from the other. -/
theorem clash_iff (repo repo' : RegisteredRepo) : Clash repo.toCodebaseRepo repo'.toCodebaseRepo ↔
    repo.below <+: repo'.below ∨ repo'.below <+: repo.below := by
  have hsymm : Clash repo.toCodebaseRepo repo'.toCodebaseRepo ↔ Clash repo'.toCodebaseRepo repo.toCodebaseRepo := by
    unfold Clash
    rw [alike_iff, alike_iff, alike_iff, alike_iff, eq_comm (a := masked repo.orgID.toList), eq_comm (a := masked repo.repoID.toList)]
    exact or_congr_right or_comm
  by_cases h : repo.orgID = "." <;> by_cases h' : repo'.orgID = "."
  · -- two mirrors in the base itself
    have hgit : ∀ s : List Char, masked ['.'] ≠ masked s ++ gitSuffix := fun s hs => by
      have hlen := congrArg List.length hs
      rw [List.length_append] at hlen
      exact absurd (hlen ▸ Nat.le_add_left gitSuffix.length _) (by decide)
    rw [below_eq_here h, below_eq_here h', Clash, alike_iff, alike_iff, alike_git_iff, alike_git_iff, h, h']
    simp [hgit, eq_comm]
  · exact clash_of_here h h'
  · rw [hsymm, or_comm]
    exact clash_of_here h' h
  · rw [below_eq_of_ne h, below_eq_of_ne h', Clash, alike_iff, alike_iff]
    simp [h, h', eq_comm]

/-- **Source mirror isolation**: accepted repositories are isolated exactly when their names do not clash. -/
theorem isolated_iff (baseDir checkoutBase : List Char) (repo repo' : RegisteredRepo) :
    Isolated baseDir checkoutBase repo.toCodebaseRepo repo'.toCodebaseRepo ↔
      ¬Clash repo.toCodebaseRepo repo'.toCodebaseRepo := by
  rw [clash_iff, ← apart_iff baseDir]
  constructor
  · exact Isolated.apart
  · intro h
    exact ⟨h, ⟨mirrorDir_within baseDir _, mirrorDir_within baseDir _⟩,
      fun b => ⟨uniqueCheckoutDir_within checkoutBase _ b, uniqueCheckoutDir_within checkoutBase _ b⟩, checkoutDir_within⟩

def registered (orgID repoID : String) (h : validateCodebaseRepo { orgID, repoID, gitURL := "git@host:p" } false = []) :
    RegisteredRepo :=
  { orgID, repoID, gitURL := "git@host:p", valid := ⟨false, h⟩ }

/-- Two repositories that share a mirror. -/
theorem mirror_shared : ¬Isolated "/srv".toList "/tmp".toList (registered "o" "a/b" (by decide)).toCodebaseRepo
    (registered "o" "a_b" (by decide)).toCodebaseRepo :=
  fun h => h.apart.ne (by decide)

end CodeRca
end DsApm
