import DsApm.Lib.Separated
/-!
# FilePath — slash-separated paths, by their text

`path/filepath`: a path is read as the names it goes down, after those it goes up; nothing and `.` go nowhere, and `..` takes back
the last name.  A cleaned path is read as the path it was made of (`read_clean`), and names that are joined to a base go down from
it (`read_join`).
-/
namespace FilePath

open List

def enter (rooted : Bool) (out : List (List Char)) (c : List Char) : List (List Char) :=
  if c = [] ∨ c = ['.'] then out
  else if c = ['.', '.'] then
    match out.getLast? with
    | some last => if last = ['.', '.'] then out ++ [c] else out.dropLast
    | none => if rooted then out else out ++ [c]
  else out ++ [c]

structure Path where
  rooted : Bool
  names : List (List Char)
  deriving DecidableEq, Repr

def isRooted (s : List Char) : Bool := decide (s.head? = some '/')

def read (s : List Char) : Path := ⟨isRooted s, (s.splitOn '/').foldl (enter (isRooted s)) []⟩

def Path.write : Path → List Char
  | ⟨true, ns⟩ => '/' :: ['/'].intercalate ns
  | ⟨false, []⟩ => ['.']
  | ⟨false, n :: ns⟩ => ['/'].intercalate (n :: ns)

def clean (s : List Char) : List Char := (read s).write

/-- `filepath.Join`: leading elements that are empty are left out. -/
def join (elems : List (List Char)) : List Char :=
  match elems.dropWhile (fun e => decide (e = [])) with
  | [] => []
  | e :: es => clean (['/'].intercalate (e :: es))

def Path.down (p : Path) (more : List (List Char)) : Path := ⟨p.rooted, p.names ++ more⟩

structure IsName (n : List Char) : Prop where
  ne : n ≠ []
  here : n ≠ ['.']
  up : n ≠ ['.', '.']
  slash : '/' ∉ n

def Within (p q : Path) : Prop := ∃ more, (∀ n ∈ more, IsName n) ∧ q = p.down more

def StrictlyWithin (p q : Path) : Prop := ∃ more, more ≠ [] ∧ (∀ n ∈ more, IsName n) ∧ q = p.down more

/-! ## Paths as they are read -/

theorem enter_name {rooted : Bool} {out : List (List Char)} {n : List Char} (h : IsName n) : enter rooted out n = out ++ [n] := by
  simp [enter, h.ne, h.here, h.up]

theorem foldl_enter {rooted : Bool} : ∀ {es out : List (List Char)}, (∀ e ∈ es, IsName e ∨ e = ['.']) →
    es.foldl (enter rooted) out = out ++ es.filter (fun e => decide (e ≠ ['.']))
  | [], out, _ => by simp
  | e :: es, out, h => by
    rw [forall_mem_cons] at h
    rw [foldl_cons, foldl_enter h.2]
    rcases h.1 with hname | rfl
    · simp [enter_name hname, hname.here]
    · simp [enter]

structure Normal (p : Path) : Prop where
  split : ∃ ups names, p.names = ups ++ names ∧ (∀ u ∈ ups, u = ['.', '.']) ∧ (p.rooted = true → ups = []) ∧ ∀ n ∈ names, IsName n

theorem normal_enter {rooted : Bool} {out : List (List Char)} {c : List Char} (hc : '/' ∉ c) (h : Normal ⟨rooted, out⟩) :
    Normal ⟨rooted, enter rooted out c⟩ := by
  obtain ⟨ups, names, hout, hups, hroot, hnames⟩ := h.split
  dsimp only at hout hroot
  subst hout
  unfold enter
  by_cases hhere : c = [] ∨ c = ['.']
  · rw [if_pos hhere]
    exact h
  · rw [if_neg hhere]
    rw [not_or] at hhere
    by_cases hup : c = ['.', '.']
    · rw [if_pos hup]
      rcases eq_nil_or_concat names with rfl | ⟨front, last, rfl⟩
      · -- there is no name to take back
        rw [append_nil]
        cases hlast : ups.getLast? with
        | none =>
          obtain rfl : ups = [] := List.getLast?_eq_none_iff.1 hlast
          cases rooted with
          | true => exact h
          | false => exact ⟨[c], [], rfl, by simpa using hup, nofun, nofun⟩
        | some last =>
          have hmem := mem_of_getLast? hlast
          have hfree : rooted = true → ups ++ [c] = [] := fun hr => by
            rw [hroot hr] at hmem
            cases hmem
          dsimp only
          rw [if_pos (hups last hmem)]
          exact ⟨ups ++ [c], [], (append_nil _).symm, by simpa [or_imp, forall_and, hup] using hups, hfree, nofun⟩
      · have hlast : (ups ++ (front ++ [last])).getLast? = some last := by simp
        have hname := hnames last (by simp)
        rw [concat_eq_append, hlast]
        dsimp only
        rw [if_neg hname.up, ← List.append_assoc, dropLast_concat]
        exact ⟨ups, front, rfl, hups, hroot, fun n hn => hnames n (by simp [hn])⟩
    · rw [if_neg hup]
      refine ⟨ups, names ++ [c], List.append_assoc .., hups, hroot, fun n hn => ?_⟩
      rcases mem_append.1 hn with hn | hn
      · exact hnames n hn
      · rw [mem_singleton] at hn
        exact hn ▸ ⟨hhere.1, hhere.2, hup, hc⟩

theorem normal_read (s : List Char) : Normal (read s) := by
  have hrun : ∀ {cs out : List (List Char)}, (∀ c ∈ cs, '/' ∉ c) → Normal ⟨isRooted s, out⟩ →
      Normal ⟨isRooted s, cs.foldl (enter (isRooted s)) out⟩ := by
    intro cs
    induction cs with
    | nil => exact fun _ h => h
    | cons c cs ih =>
      intro out hcs h
      rw [forall_mem_cons] at hcs
      exact ih hcs.2 (normal_enter hcs.1 h)
  exact hrun (fun c hc => Separated.not_mem_of_mem_splitOn hc) ⟨[], [], rfl, nofun, fun _ => rfl, nofun⟩

theorem isName_of_rooted {p : Path} (h : Normal p) (hroot : p.rooted = true) : ∀ n ∈ p.names, IsName n := by
  obtain ⟨ups, names, hout, -, hups, hnames⟩ := h.split
  rw [hout, hups hroot]
  exact hnames

theorem foldl_enter_normal {p : Path} (h : Normal p) : p.names.foldl (enter p.rooted) [] = p.names := by
  obtain ⟨ups, names, hout, hups, hroot, hnames⟩ := h.split
  have hrun : ∀ {us out : List (List Char)}, p.rooted = false → (∀ u ∈ us, u = ['.', '.']) → (∀ u ∈ out, u = ['.', '.']) →
      us.foldl (enter p.rooted) out = out ++ us := by
    intro us
    induction us with
    | nil => simp
    | cons u us ih =>
      intro out hfree hus hup
      rw [forall_mem_cons] at hus
      have hstep : enter p.rooted out u = out ++ [u] := by
        rw [hfree, hus.1, enter, if_neg (by decide), if_pos rfl]
        cases hlast : out.getLast? with
        | none => rfl
        | some last => exact if_pos (hup last (mem_of_getLast? hlast))
      rw [foldl_cons, hstep, ih hfree hus.2 (by simpa [or_imp, forall_and, hus.1] using hup)]
      simp
  have hups' : ups.foldl (enter p.rooted) [] = ups := by
    cases hr : p.rooted with
    | true => rw [hroot hr, foldl_nil]
    | false => exact hr ▸ hrun hr hups nofun
  rw [hout, foldl_append, hups', foldl_enter fun n hn => .inl (hnames n hn)]
  congr 1
  exact filter_eq_self.2 fun n hn => by simpa using (hnames n hn).here

theorem slash_of_normal {p : Path} (h : Normal p) : ∀ n ∈ p.names, n ≠ [] ∧ '/' ∉ n := by
  obtain ⟨ups, names, hout, hups, -, hnames⟩ := h.split
  intro n hn
  rw [hout, mem_append] at hn
  rcases hn with hn | hn
  · rw [hups n hn]
    decide
  · exact ⟨(hnames n hn).ne, (hnames n hn).slash⟩

theorem splitOn_slash_cons (s : List Char) : ('/' :: s).splitOn '/' = [] :: s.splitOn '/' := by
  rw [splitOn_cons_eq_if_modifyHead, if_pos (beq_self_eq_true _)]

theorem not_isRooted {s : List Char} (h : [] ∉ s.splitOn '/') : isRooted s = false := by
  cases s with
  | nil => rfl
  | cons c s =>
    rw [isRooted, List.head?_cons, decide_eq_false_iff_not, Option.some.injEq]
    rintro rfl
    rw [splitOn_slash_cons] at h
    exact h mem_cons_self

theorem foldl_enter_nil (rooted : Bool) (es : List (List Char)) : ([] :: es).foldl (enter rooted) [] = es.foldl (enter rooted) [] := by
  rw [foldl_cons, enter, if_pos (.inl rfl)]

/-- **A path that is written is read back.** -/
theorem read_write {p : Path} (h : Normal p) : read p.write = p := by
  have hslash := slash_of_normal h
  have hnames := foldl_enter_normal h
  have hsplit : p.names ≠ [] → (['/'].intercalate p.names).splitOn '/' = p.names :=
    (Separated.splitOn_intercalate_iff · |>.2 fun n hn => (hslash n hn).2)
  obtain ⟨rooted, names⟩ := p
  cases rooted with
  | true =>
    rw [Path.write, read, splitOn_slash_cons, foldl_enter_nil]
    cases names with
    | nil => rfl
    | cons n ns =>
      rw [hsplit (cons_ne_nil n ns)]
      exact congrArg (Path.mk true) hnames
  | false =>
    cases names with
    | nil => decide
    | cons n ns =>
      have hfree : isRooted (['/'].intercalate (n :: ns)) = false :=
        not_isRooted fun hnil => (hslash [] (hsplit (cons_ne_nil n ns) ▸ hnil)).1 rfl
      rw [Path.write, read, hsplit (cons_ne_nil n ns), hfree]
      exact congrArg (Path.mk false) hnames

/-- **A cleaned path is the path it was.** -/
theorem read_clean (s : List Char) : read (clean s) = read s := read_write (normal_read s)

theorem clean_slash (s : List Char) : clean ('/' :: s) = '/' :: ['/'].intercalate (read ('/' :: s)).names := by
  have hroot : (read ('/' :: s)).rooted = true := rfl
  unfold clean
  generalize read ('/' :: s) = p at hroot
  obtain ⟨rooted, names⟩ := p
  cases hroot
  rfl

/-- **What is joined to a base** goes down from it, when its elements are names. -/
theorem read_join (base : List Char) {ts : List (List Char)} (hts : ts ≠ [])
    (h : ∀ e ∈ ts.flatMap (List.splitOn '/'), IsName e ∨ e = ['.']) :
    read (join (base :: ts)) = (read base).down ((ts.flatMap (List.splitOn '/')).filter fun e => decide (e ≠ ['.'])) := by
  have hnil : [] ∉ ts.flatMap (List.splitOn '/') := fun hmem => (h [] hmem).elim (fun hname => hname.ne rfl) nofun
  have hsplit : (['/'].intercalate ts).splitOn '/' = ts.flatMap (List.splitOn '/') := Separated.splitOn_intercalate_flatMap hts
  by_cases hbase : base = []
  · obtain ⟨t, ts, rfl⟩ := exists_cons_of_ne_nil hts
    have ht : t ≠ [] := by
      rintro rfl
      exact hnil (by simp)
    have hfree : isRooted (['/'].intercalate (t :: ts)) = false := not_isRooted (hsplit ▸ hnil)
    have hjoin : join (base :: t :: ts) = clean (['/'].intercalate (t :: ts)) := by simp [join, hbase, ht]
    rw [hjoin, read_clean, read, hsplit, hfree, foldl_enter h, hbase]
    rfl
  · have hjoin : join (base :: ts) = clean (['/'].intercalate (base :: ts)) := by simp [join, hbase]
    have hroot : isRooted (['/'].intercalate (base :: ts)) = isRooted base := by
      obtain ⟨c, base, rfl⟩ := exists_cons_of_ne_nil hbase
      simp [isRooted]
    rw [hjoin, read_clean, read, Separated.splitOn_intercalate_flatMap (cons_ne_nil base ts), hroot, flatMap_cons,
      foldl_append, foldl_enter h]
    rfl

theorem splitOn_elem {e : List Char} (h : IsName e ∨ e = ['.']) : e.splitOn '/' = [e] := by
  refine splitOn_eq_singleton ?_
  rcases h with h | rfl
  · exact h.slash
  · decide

/-- **Elements that are joined to a base** are gone down, except for those that lead nowhere. -/
theorem read_join_elems (base : List Char) {es : List (List Char)} (hes : es ≠ []) (h : ∀ e ∈ es, IsName e ∨ e = ['.']) :
    read (join (base :: es)) = (read base).down (es.filter fun e => decide (e ≠ ['.'])) := by
  have hsplit : es.flatMap (List.splitOn '/') = es := by
    rw [flatMap_congr fun e he => splitOn_elem (h e he)]
    simp
  rw [read_join base hes (by rwa [hsplit]), hsplit]

theorem isName_of_mem_filter {es : List (List Char)} (h : ∀ e ∈ es, IsName e ∨ e = ['.']) :
    ∀ n ∈ es.filter (fun e => decide (e ≠ ['.'])), IsName n := by
  intro n hn
  rw [mem_filter, decide_eq_true_iff] at hn
  exact (h n hn.1).resolve_right hn.2

theorem within_down_iff {p : Path} {ms ns : List (List Char)} (h : ∀ n ∈ ns, IsName n) :
    Within (p.down ms) (p.down ns) ↔ ms <+: ns := by
  constructor
  · rintro ⟨more, -, hmore⟩
    have hnames : p.names ++ ns = p.names ++ ms ++ more := congrArg Path.names hmore
    rw [List.append_assoc, append_cancel_left_eq] at hnames
    exact ⟨more, hnames.symm⟩
  · rintro ⟨more, rfl⟩
    exact ⟨more, fun n hn => h n (mem_append_right _ hn), by simp [Path.down]⟩

end FilePath
