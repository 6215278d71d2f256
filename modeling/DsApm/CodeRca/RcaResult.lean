import DsApm.CodeRca.RunStore
import DsApm.Lib.JsonValue
/-!
# RcaResult — what an agent found

`rcaresult.go`: an agent ends its output with a block of JSON between fences, and the result is read from the last such block.
The block is looked for as text, so a fence inside one of its strings ends it there; without one the fields come back, trimmed,
and the confidence as one of three (`parseRCAResult_report`).
-/
namespace DsApm
namespace CodeRca

open GoStd Search Json List

structure RCAResult where
  baselineCommit : String := ""
  rootCause : String := ""
  proposedFix : String := ""
  confidence : String := ""
  limitations : String := ""
  raw : String := ""
  deriving DecidableEq, Repr

def fence : List Char := ['`', '`', '`']

def marker : List Char := fence ++ ['j', 's', 'o', 'n']

/-- The text to parse: the last block, or else an object alone. -/
def extractJSONBlob (raw : String) : Option (List Char) :=
  match cutLast marker raw.toList with
  | some (_, rest) =>
    match cut ['\n'] rest with
    | none => none
    | some (_, rest) => (cut fence rest).map Prod.fst
  | none =>
    let trimmed := trimSpace raw
    if trimmed.toList.head? = some '\x7b' then some trimmed.toList else none

def normalizeConfidence (c : String) : String :=
  let c := String.ofList ((trimSpace c).toList.map GoStd.toLower)
  if c = "high" then "high" else if c = "medium" then "medium" else "low"

def rcaFields : List (String × Decoder RCAResult) :=
  [("baseline_commit", .of RCAResult.baselineCommit (fun r s => { r with baselineCommit := s }) .text),
    ("root_cause", .of RCAResult.rootCause (fun r s => { r with rootCause := s }) .text),
    ("proposed_fix", .of RCAResult.proposedFix (fun r s => { r with proposedFix := s }) .text),
    ("confidence", .of RCAResult.confidence (fun r s => { r with confidence := s }) .text),
    ("limitations", .of RCAResult.limitations (fun r s => { r with limitations := s }) .text)]

def RCAResult.cleaned (p : RCAResult) (raw : String) : RCAResult :=
  { baselineCommit := trimSpace p.baselineCommit, rootCause := trimSpace p.rootCause, proposedFix := trimSpace p.proposedFix,
    confidence := normalizeConfidence p.confidence, limitations := trimSpace p.limitations, raw := raw }

def parseRCAResult (raw : String) : RCAResult × RunStatus :=
  match (extractJSONBlob raw).bind (unmarshal (.record rcaFields) {}) with
  | none => ({ raw := raw }, .unparseable)
  | some p => if (p.cleaned raw).rootCause = "" then ({ raw := raw }, .unparseable) else (p.cleaned raw, .done)

/-! ## An agent's report -/

def RCAResult.members (r : RCAResult) : List (List Char × List Char) :=
  [("baseline_commit".toList, r.baselineCommit.toList), ("root_cause".toList, r.rootCause.toList),
    ("proposed_fix".toList, r.proposedFix.toList), ("confidence".toList, r.confidence.toList),
    ("limitations".toList, r.limitations.toList)]

def RCAResult.encode (r : RCAResult) : List Char := render (.object (r.members.map fun m => (m.1, .string m.2)))

def report (prose : List Char) (r : RCAResult) (after : List Char) : List Char :=
  prose ++ (marker ++ ('\n' :: (r.encode ++ '\n' :: (fence ++ after))))

structure Closes (after : List Char) : Prop where
  line : after = [] ∨ ∃ t, after = '\n' :: t
  noFence : ¬fence <:+: after

def Unfenced (r : RCAResult) : Prop := ∀ m ∈ r.members, ¬fence <:+: m.2

instance (r : RCAResult) : Decidable (Unfenced r) := inferInstanceAs (Decidable (∀ m ∈ r.members, ¬fence <:+: m.2))

theorem plain_backtick : Plain '`' := by
  refine ⟨by decide, fun d hd h => ?_⟩
  rcases mem_escape h with h | ⟨rfl, -⟩
  · exact absurd h (by decide)
  · exact hd rfl

theorem names_unfenced (r : RCAResult) : ∀ m ∈ r.members, ¬fence <:+: m.1 := by
  unfold RCAResult.members
  simp only [forall_mem_cons, not_mem_nil, false_implies, implies_true, and_true]
  decide

/-- **An unfenced result is written without a fence.** -/
theorem encode_unfenced {r : RCAResult} (h : Unfenced r) : ¬fence <:+: r.encode := by
  have hne : fence ≠ [] := by decide
  have hbrace : '\x7b' ∉ fence ∧ '\x7d' ∉ fence := by decide
  intro hf
  rw [RCAResult.encode, render] at hf
  rcases (infix_append_cons (a := []) hne hbrace.1).1 hf with hf | hf
  · exact hne (infix_nil.1 hf)
  · rcases (infix_append_cons hne hbrace.2).1 hf with hf | hf
    · obtain ⟨m, hm, hrun⟩ := infix_renderMembers (n := 2) plain_backtick (by decide) (by decide) (by decide) hf
      exact hrun.elim (names_unfenced r m hm) (h m hm)
    · exact hne (infix_nil.1 hf)

theorem fence_of_marker {s : List Char} (h : marker <:+: s) : fence <:+: s := (prefix_append fence _).isInfix.trans h

/-- **The block is found**: the last marker is the report's, and the first fence after it too. -/
theorem extractJSONBlob_report (prose : List Char) {r : RCAResult} {after : List Char} (hafter : Closes after) (h : Unfenced r) :
    extractJSONBlob (String.ofList (report prose r after)) = some (r.encode ++ ['\n']) := by
  have hclear := encode_unfenced h
  have hmarker : marker ≠ [] ∧ '\n' ∉ marker := by decide
  have hfence : fence ≠ [] ∧ '\n' ∉ fence := by decide
  have hclosed : ¬marker <:+: fence ++ after := by
    rcases hafter.line with rfl | ⟨t, rfl⟩
    · decide
    · rw [infix_append_cons hmarker.1 hmarker.2]
      rintro (hm | hm)
      · revert hm
        decide
      · exact hafter.noFence ((fence_of_marker hm).trans (suffix_cons '\n' t).isInfix)
  have hlast : ¬marker <:+: (marker ++ ('\n' :: (r.encode ++ '\n' :: (fence ++ after)))).tail := by
    show ¬marker <:+: ['`', '`', 'j', 's', 'o', 'n'] ++ ('\n' :: (r.encode ++ '\n' :: (fence ++ after)))
    rw [infix_append_cons hmarker.1 hmarker.2, infix_append_cons hmarker.1 hmarker.2]
    rintro (hm | hm | hm)
    · revert hm
      decide
    · exact hclear (fence_of_marker hm)
    · exact hclosed hm
  have hline : cut ['\n'] ('\n' :: (r.encode ++ '\n' :: (fence ++ after))) = some ([], r.encode ++ '\n' :: (fence ++ after)) :=
    @cut_first _ _ ['\n'] _ (by decide) [] (by decide)
  have hend : cut fence (r.encode ++ '\n' :: (fence ++ after)) = some (r.encode ++ ['\n'], after) := by
    rw [append_cons]
    refine cut_first hfence.1 ?_
    rw [List.append_assoc, singleton_append, infix_append_cons hfence.1 hfence.2]
    rintro (hf | hf)
    · exact hclear hf
    · revert hf
      decide
  unfold extractJSONBlob report
  rw [String.toList_ofList, cutLast_last hmarker.1 hlast]
  dsimp only
  rw [hline]
  dsimp only
  rw [hend]
  rfl

theorem record_members (r : RCAResult) :
    Decoder.record rcaFields {} (.object (r.members.map fun m => (m.1, .string m.2))) = some { r with raw := "" } := by
  have hnames : (rcaFields.map Prod.fst).Nodup := by decide
  have hcommit := @Decoder.field_of_mem _ rcaFields hnames "baseline_commit" _ (by simp [rcaFields]; rfl)
  have hroot := @Decoder.field_of_mem _ rcaFields hnames "root_cause" _ (by simp [rcaFields]; rfl)
  have hfix := @Decoder.field_of_mem _ rcaFields hnames "proposed_fix" _ (by simp [rcaFields]; rfl)
  have hconfidence := @Decoder.field_of_mem _ rcaFields hnames "confidence" _ (by simp [rcaFields]; rfl)
  have hlimits := @Decoder.field_of_mem _ rcaFields hnames "limitations" _ (by simp [rcaFields]; rfl)
  simp only [RCAResult.members, Decoder.record, map_cons, map_nil, foldlM_cons, foldlM_nil, Decoder.setMember,
    hcommit, hroot, hfix, hconfidence, hlimits, Decoder.of, Decoder.text, String.ofList_toList, Option.map_some,
    Option.bind_eq_bind, Option.bind_some, Option.pure_def]

theorem unmarshal_encode (r : RCAResult) : unmarshal (.record rcaFields) {} (r.encode ++ ['\n']) = some { r with raw := "" } := by
  have hfits : Fits maxNestingDepth (.object (r.members.map fun m => (m.1, .string m.2))) := by
    refine .object (d := 9999) fun m hm => ?_
    obtain ⟨m, -, rfl⟩ := List.mem_map.1 hm
    exact .string _ _
  rw [unmarshal, RCAResult.encode, parse_render hfits (by decide)]
  exact record_members r

/-- **RCA result extraction**: an unfenced result with a root cause comes back from every report that ends with it, its texts
trimmed and its confidence normalized. -/
theorem parseRCAResult_report (prose : List Char) (r : RCAResult) (after : List Char) (hroot : isBlank r.rootCause = false)
    (hafter : Closes after) (h : Unfenced r) :
    parseRCAResult (String.ofList (report prose r after)) = (r.cleaned (String.ofList (report prose r after)), .done) := by
  have hcause : ¬trimSpace r.rootCause = "" := by
    rw [trimSpace_eq_empty, hroot]
    exact Bool.false_ne_true
  rw [parseRCAResult, extractJSONBlob_report prose hafter h, Option.bind_some, unmarshal_encode]
  exact if_neg hcause

def finding (proposedFix : String) : RCAResult := { rootCause := "pool", proposedFix := proposedFix, confidence := "high" }

theorem finding_extracted : parseRCAResult (String.ofList (report "I looked. ```json".toList (finding "restart") [])) =
    ((finding "restart").cleaned (String.ofList (report "I looked. ```json".toList (finding "restart") [])), .done) :=
  parseRCAResult_report _ _ _ (by decide) ⟨.inl rfl, by decide⟩ (by decide)

/-- A fix with a blank at its end loses it, and one that shows code between fences loses the whole result. -/
theorem finding_changed :
    (parseRCAResult (String.ofList (report [] (finding "restart ") []))).1.proposedFix ≠ "restart " ∧
    (parseRCAResult (String.ofList (report [] (finding "```sh```") []))).2 = .unparseable := by
  unfold parseRCAResult extractJSONBlob
  simp only [String.toList_ofList]
  decide +kernel

end CodeRca
end DsApm
