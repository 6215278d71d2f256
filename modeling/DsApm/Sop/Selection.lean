import DsApm.Sop.Binding
/-!
# Selection — which document binds, and that the order of the documents does not matter

The comparison of the sort is a strict order on a key of score, priority, version and SOP identity.  From it: a bound
document is approved and admits the tenant, one bound by labels is the first of the candidates in that order, and the
response is the same for every order of the documents and every order of the maps, where no two documents share identity
and version.
-/
namespace DsApm
namespace Sop

open GoStd Latest List

section
variable (fold : Char → Char)

/-- Entries in the order of the sort: score, priority and version from the greatest down, then the identity. -/
def SOPMatchEntry.rank (e : SOPMatchEntry) : Natᵒᵈ ×ₗ Natᵒᵈ ×ₗ Stringᵒᵈ ×ₗ String :=
  toLex (OrderDual.toDual e.score, toLex (OrderDual.toDual e.priority, toLex (OrderDual.toDual e.doc.ver, e.doc.id)))

theorem lessSOPMatch_iff (a b : SOPMatchEntry) : lessSOPMatch a b = true ↔ a.rank < b.rank := by
  simp only [SOPMatchEntry.rank, Prod.Lex.toLex_lt_toLex, OrderDual.toDual_lt_toDual, OrderDual.toDual_inj, lessSOPMatch]
  split_ifs with h₁ h₂ h₃ <;> simp_all

theorem not_lessSOPMatch_iff (a b : SOPMatchEntry) : lessSOPMatch b a = false ↔ a.rank ≤ b.rank := by
  rw [← not_lt, ← lessSOPMatch_iff, Bool.not_eq_true]

theorem sortSOPMatches_eq (entries : List SOPMatchEntry) : sortSOPMatches entries = sortBy SOPMatchEntry.rank entries := by
  unfold sortSOPMatches sortBy
  congr 1
  funext a b
  exact propext (not_lessSOPMatch_iff a b)

/-! ## The entries -/

variable {labels : Labels} {doc : SOPDocument} {e : SOPMatchEntry}

theorem matchEntry_eq_some :
    matchEntry fold labels doc = some e ↔ matchedDimensions fold doc labels ≠ [] ∧
      e = { doc, matchedOn := matchedDimensions fold doc labels, score := (matchedDimensions fold doc labels).length
            priority := ((matchedDimensions fold doc labels).map sopDimensionPriority).sum } := by
  simp only [matchEntry]
  split_ifs with h
  · rw [List.length_eq_zero_iff] at h
    simp [h]
  · rw [List.length_eq_zero_iff] at h
    simp [h, eq_comm]

theorem collectSOPMatches_perm (visit : Visit SOPDocument) (docs : List SOPDocument) (labels : Labels)
    (tenant : PilotAuditTenant) (now : Time) :
    (collectSOPMatches fold visit docs labels tenant now).Perm
      ((latest SOPDocument.id SOPDocument.ver (docs.filter (eligible tenant now))).filterMap (matchEntry fold labels)) := by
  unfold collectSOPMatches latest
  rw [foldl_filter]
  exact (visit.perm _).filterMap _

/-- An entry that is ranked: of the eligible documents of its SOP the first listed of the greatest version, where that
matches a dimension the alert carries. -/
structure Candidate (docs : List SOPDocument) (labels : Labels) (now : Time) (e : SOPMatchEntry) : Prop where
  newest : (members SOPDocument.id (docs.filter (eligible (pilotTenantFromLabels labels) now)) e.doc.id).argmax
    SOPDocument.ver = some e.doc
  entry : matchEntry fold labels e.doc = some e

variable {docs : List SOPDocument} {now : Time}

theorem mem_collectSOPMatches {visit : Visit SOPDocument} :
    e ∈ collectSOPMatches fold visit docs labels (pilotTenantFromLabels labels) now ↔ Candidate fold docs labels now e := by
  rw [(collectSOPMatches_perm fold visit docs labels _ now).mem_iff, mem_filterMap]
  constructor
  · rintro ⟨doc, hdoc, he⟩
    obtain ⟨hm, rfl⟩ := (matchEntry_eq_some fold).1 he
    exact ⟨(mem_latest _ _).1 hdoc, he⟩
  · rintro ⟨hnew, he⟩
    exact ⟨e.doc, (mem_latest _ _).2 hnew, he⟩

theorem Candidate.mem
    (h : Candidate fold docs labels now e) : e.doc ∈ docs ∧ eligible (pilotTenantFromLabels labels) now e.doc = true := by
  have hm := argmax_mem h.newest
  simp only [members, mem_filter] at hm
  exact hm.1

theorem Candidate.score_eq
    (h : Candidate fold docs labels now e) : e.score = (matchedDimensions fold e.doc labels).length :=
  congrArg SOPMatchEntry.score ((matchEntry_eq_some fold).1 h.entry).2

theorem eligible_iff {tenant : PilotAuditTenant} :
    eligible tenant now doc = true ↔ isBlank doc.sopID = false ∧ isSOPApproved doc = true ∧
      pilotTenantScopeAllows doc.tenantScope tenant = true ∧ sopIsStale doc now = false := by
  simp only [eligible, Bool.and_eq_true, Bool.not_eq_true', and_assoc]

theorem firstExactMatch_least {entries : List SOPMatchEntry} {n : Nat} {top : SOPMatchEntry}
    (hle : ∀ e ∈ entries, e.score ≤ n) (h : firstExactMatch (sortSOPMatches entries) n = some top) :
    top ∈ entries ∧ top.score = n ∧ ∀ e ∈ entries, top.rank ≤ e.rank := by
  rw [sortSOPMatches_eq] at h
  have hperm := sortBy_perm SOPMatchEntry.rank entries
  obtain ⟨hscore, before, after, hsplit, hbefore⟩ := List.find?_eq_some_iff_append.1 h
  have htop : top ∈ sortBy SOPMatchEntry.rank entries := by simp [hsplit]
  have hn : top.score = n := by simpa using hscore
  refine ⟨hperm.mem_iff.1 htop, hn, fun e he => ?_⟩
  have he' := hperm.mem_iff.2 he
  have hsorted := pairwise_sortBy SOPMatchEntry.rank entries
  rw [hsplit] at he' hsorted
  rcases mem_append.1 he' with hb | ha
  · -- an entry before the exact one has a smaller score, which the order puts after it
    have hlt : e.score < top.score := by
      have hne : e.score ≠ n := by simpa using hbefore e hb
      have hle' := hle e he
      omega
    exact le_of_lt (Prod.Lex.toLex_lt_toLex.2 (.inl (OrderDual.toDual_lt_toDual.2 hlt)))
  · rcases mem_cons.1 ha with rfl | ha
    · exact le_rfl
    · exact (pairwise_cons.1 (pairwise_append.1 hsorted).2.1).1 e ha

theorem matchedDimensions_length_le (doc : SOPDocument) (labels : Labels) :
    (matchedDimensions fold doc labels).length ≤ (presentMatchDimensions labels).length := length_filter_le _ _

theorem matchedDimensions_eq
    (h : (matchedDimensions fold doc labels).length = (presentMatchDimensions labels).length) :
    matchedDimensions fold doc labels = presentMatchDimensions labels := filter_sublist.eq_of_length h

/-! ## What binds -/

theorem explicit_bound
    (h : (previewExplicitSOPBinding docs labels now).1.status = .bound) :
    ∃ doc, latestApprovedSOPDocumentByID docs (trimSpace (label labels "sop_id")) = some doc ∧
      pilotTenantScopeAllows doc.tenantScope (pilotTenantFromLabels labels) = true ∧
      (previewExplicitSOPBinding docs labels now).1.sopID = doc.sopID ∧
      (previewExplicitSOPBinding docs labels now).1.version = doc.version ∧
      (previewExplicitSOPBinding docs labels now).1.resolution = .explicitLabel := by
  revert h
  simp only [previewExplicitSOPBinding]
  cases happ : latestApprovedSOPDocumentByID docs (trimSpace (label labels "sop_id")) with
  | none =>
    -- without an approved version no branch binds
    intro h
    exfalso
    revert h
    cases latestSOPDocumentByID docs (trimSpace (label labels "sop_id")) with
    | none => simp
    | some doc =>
      simp only [Option.none_or, Option.isNone_none, if_true]
      split_ifs <;> simp
  | some doc =>
    simp only [Option.some_or, Option.isNone_some, Bool.false_eq_true, if_false]
    split_ifs with hcomplete hscope hstale
    · simp
    · simp
    all_goals
      intro _
      exact ⟨doc, rfl, by simpa using hscope, rfl, rfl, rfl⟩

theorem labelCombo_bound {visit : Visit SOPDocument}
    (h : (previewLabelComboBinding fold visit docs labels now).1.status = .bound) :
    ∃ top, firstExactMatch (sortSOPMatches (collectSOPMatches fold visit docs labels (pilotTenantFromLabels labels) now))
        (presentMatchDimensions labels).length = some top ∧
      (previewLabelComboBinding fold visit docs labels now).1.sopID = top.doc.sopID ∧
      (previewLabelComboBinding fold visit docs labels now).1.version = top.doc.version := by
  revert h
  simp only [previewLabelComboBinding]
  split_ifs with hcomplete hpresent hentries
  · simp
  · simp
  · simp
  · cases firstExactMatch (sortSOPMatches (collectSOPMatches fold visit docs labels (pilotTenantFromLabels labels) now))
        (presentMatchDimensions labels).length with
    | none => simp
    | some top => exact fun _ => ⟨top, rfl, rfl, rfl⟩

theorem latestApproved_spec {sopID : String}
    (h : latestApprovedSOPDocumentByID docs sopID = some doc) : doc ∈ docs ∧ isSOPApproved doc = true := by
  rw [latestApprovedSOPDocumentByID, foldl_pickLatest] at h
  have hm := mem_filter.1 (argmax_mem h)
  exact ⟨hm.1, ((Bool.and_eq_true _ _).mp hm.2).2⟩

/-- A bound document is listed, approved and open to the alert's tenant.  Bound by labels it is fresh, matches every
dimension the alert carries, and comes first of the candidates in the order of the sort. -/
theorem bound_document (visit : Visit SOPDocument) (docs : List SOPDocument) (labels : Labels) (now : Time)
    (h : (previewSOPDocumentBindingAt fold visit docs labels now).1.status = .bound) :
    ∃ doc ∈ docs,
      doc.sopID = (previewSOPDocumentBindingAt fold visit docs labels now).1.sopID ∧
      doc.version = (previewSOPDocumentBindingAt fold visit docs labels now).1.version ∧
      isSOPApproved doc = true ∧ pilotTenantScopeAllows doc.tenantScope (pilotTenantFromLabels labels) = true ∧
      ((previewSOPDocumentBindingAt fold visit docs labels now).1.resolution = .labelMatch →
        sopIsStale doc now = false ∧ matchedDimensions fold doc labels = presentMatchDimensions labels ∧
        ∃ e, e.doc = doc ∧ Candidate fold docs labels now e ∧
          ∀ e', Candidate fold docs labels now e' → e.rank ≤ e'.rank) := by
  revert h
  unfold previewSOPDocumentBindingAt
  split_ifs with hid
  · intro h
    obtain ⟨doc, hlatest, hscope, hsop, hversion, hres⟩ := explicit_bound h
    obtain ⟨hmem, happroved⟩ := latestApproved_spec hlatest
    refine ⟨doc, hmem, hsop.symm, hversion.symm, happroved, hscope, fun hlabel => ?_⟩
    rw [hres] at hlabel
    cases hlabel
  · intro h
    obtain ⟨top, htop, hsop, hversion⟩ := labelCombo_bound fold h
    have hle : ∀ e ∈ collectSOPMatches fold visit docs labels (pilotTenantFromLabels labels) now,
        e.score ≤ (presentMatchDimensions labels).length := by
      intro e he
      rw [((mem_collectSOPMatches fold).1 he).score_eq]
      exact matchedDimensions_length_le fold _ _
    obtain ⟨hin, hscore, hleast⟩ := firstExactMatch_least hle htop
    have hcand := (mem_collectSOPMatches fold).1 hin
    obtain ⟨hmem, helig⟩ := hcand.mem
    obtain ⟨-, happroved, hscope, hfresh⟩ := eligible_iff.1 helig
    refine ⟨top.doc, hmem, hsop.symm, hversion.symm, happroved, hscope, fun _ => ⟨hfresh, ?_, top, rfl, hcand, ?_⟩⟩
    · exact matchedDimensions_eq fold (hcand.score_eq.symm.trans hscore)
    · exact fun e' he' => hleast e' ((mem_collectSOPMatches fold).2 he')

/-- The dimensions a document speaks of: its owning team, and those that a tag names. -/
def SOPDocument.declares (doc : SOPDocument) : Dimension → Bool
  | .ownerTeam => !isBlank doc.ownerTeam
  | dim => doc.tags.any (fun tag => match splitTagKeyValue (trimSpace tag) with
      | some (key, _) => tagKeyMatchesDimension key dim
      | none => false)

def criticalSop (sopID : String) : SOPDocument :=
  { sopID, title := "Restart", version := "1", sourceID := "git", ownerTeam := "sre", approvalStatus := "approved"
    tenantScope := { projectIDs := ["p"], environments := ["prod"] }, tags := ["severity:critical"], updatedAt := "" }

def criticalLabels : Labels := [("project_id", "p"), ("environment", "prod"), ("severity", "critical")]

def anyOrder : Visit SOPDocument := ⟨id, fun _ => List.Perm.refl _⟩

/-- A bound document that declares a team the alert does not carry, and that an equal one of a greater identity follows. -/
theorem bound_least_of_unmatched :
    let resp := (previewSOPDocumentBindingAt toLower anyOrder [criticalSop "A", criticalSop "B"] criticalLabels 0).1
    let entries := collectSOPMatches toLower anyOrder [criticalSop "A", criticalSop "B"] criticalLabels
      (pilotTenantFromLabels criticalLabels) 0
    resp.status = .bound ∧ resp.resolution = .labelMatch ∧ resp.sopID = "A" ∧ resp.version = "1" ∧
      (criticalSop "A").declares .ownerTeam = true ∧
      Dimension.ownerTeam ∉ matchedDimensions toLower (criticalSop "A") criticalLabels ∧
      entries.map (fun e => (e.score, e.priority, e.doc.ver, e.doc.id)) = [(1, 1, "1", "A"), (1, 1, "1", "B")] := by
  decide

/-- A binding by labels, of the two documents in the same order. -/
theorem bound_critical :
    (previewSOPDocumentBindingAt toLower anyOrder [criticalSop "A", criticalSop "B"] criticalLabels 0).1.status = .bound ∧
    ∃ doc ∈ [criticalSop "A", criticalSop "B"],
      doc.sopID = "A" ∧ doc.version = "1" ∧ isSOPApproved doc = true ∧
      matchedDimensions toLower doc criticalLabels = presentMatchDimensions criticalLabels := by
  have hbound : (previewSOPDocumentBindingAt toLower anyOrder [criticalSop "A", criticalSop "B"] criticalLabels 0).1.status
      = .bound := by decide
  have hresp : (previewSOPDocumentBindingAt toLower anyOrder [criticalSop "A", criticalSop "B"] criticalLabels 0).1.sopID
      = "A" ∧ (previewSOPDocumentBindingAt toLower anyOrder [criticalSop "A", criticalSop "B"] criticalLabels 0).1.version
      = "1" ∧ (previewSOPDocumentBindingAt toLower anyOrder [criticalSop "A", criticalSop "B"] criticalLabels 0).1.resolution
      = .labelMatch := by decide
  obtain ⟨doc, hmem, hsop, hversion, happroved, -, hlabel⟩ := bound_document toLower anyOrder _ _ _ hbound
  exact ⟨hbound, doc, hmem, hsop.trans hresp.1, hversion.trans hresp.2.1, happroved, (hlabel hresp.2.2).2.1⟩

/-! ## The order of the documents and of the maps -/

theorem label_perm {labels' : Labels} (hp : labels.Perm labels') (hkeys : (labels.map Prod.fst).Nodup)
    (key : String) : label labels key = label labels' key := by
  suffices h : labels.lookup key = labels'.lookup key by rw [label, label, h]
  induction hp with
  | nil => rfl
  | cons x _ ih =>
    rw [map_cons, nodup_cons] at hkeys
    rw [lookup_cons, lookup_cons, ih hkeys.2]
  | swap x y l =>
    obtain ⟨k, v⟩ := x
    obtain ⟨k', v'⟩ := y
    have hne : k' ≠ k := by
      simp only [map_cons, nodup_cons, mem_cons, not_or] at hkeys
      exact hkeys.1.1
    rw [lookup_cons, lookup_cons, lookup_cons, lookup_cons]
    by_cases hk : key = k
    · have hk' : (key == k') = false := by simpa [hk] using hne.symm
      rw [hk']
    · have hk' : (key == k) = false := by simpa using hk
      rw [hk']
  | trans hp₁ _ ih₁ ih₂ => exact (ih₁ hkeys).trans (ih₂ ((hp₁.map Prod.fst).nodup_iff.1 hkeys))

def Distinct (docs : List SOPDocument) : Prop := (docs.map (fun doc => (doc.id, doc.ver))).Nodup

theorem Distinct.inj (h : Distinct docs) :
    ∀ a ∈ docs, ∀ b ∈ docs, a.id = b.id → a.ver = b.ver → a = b := fun _ ha _ hb hid hver =>
  inj_on_of_nodup_map h ha hb (Prod.ext hid hver)

variable {docs' : List SOPDocument}

theorem pickLatest_perm (hp : docs.Perm docs') (hd : Distinct docs) (sopID : String)
    {p : SOPDocument → Bool} (hid : ∀ doc, p doc = true → doc.id = sopID) :
    docs.foldl (pickLatest p) none = docs'.foldl (pickLatest p) none := by
  rw [foldl_pickLatest, foldl_pickLatest]
  refine argmax_perm (hp.filter p) (fun a ha b hb hver => ?_)
  rw [mem_filter] at ha hb
  exact hd.inj a ha.1 b hb.1 ((hid a ha.2).trans (hid b hb.2).symm) hver

theorem previewExplicit_perm (hp : docs.Perm docs') (hd : Distinct docs) (labels : Labels)
    (now : Time) : previewExplicitSOPBinding docs labels now = previewExplicitSOPBinding docs' labels now := by
  have hlatest : ∀ sopID, latestSOPDocumentByID docs sopID = latestSOPDocumentByID docs' sopID := fun sopID =>
    pickLatest_perm hp hd (trimSpace sopID) (fun doc h => by simpa using h)
  have happroved : ∀ sopID, latestApprovedSOPDocumentByID docs sopID = latestApprovedSOPDocumentByID docs' sopID :=
    fun sopID => pickLatest_perm hp hd (trimSpace sopID) (fun doc h => by
      rw [Bool.and_eq_true] at h
      simpa using h.1)
  simp only [previewExplicitSOPBinding, hlatest, happroved]

theorem Candidate.rank_inj (hd : Distinct docs)
    {e' : SOPMatchEntry} (h : Candidate fold docs labels now e) (h' : Candidate fold docs labels now e')
    (hrank : e.rank = e'.rank) : e = e' := by
  simp only [SOPMatchEntry.rank, EmbeddingLike.apply_eq_iff_eq, Prod.mk.injEq] at hrank
  have hdoc := hd.inj e.doc h.mem.1 e'.doc h'.mem.1 hrank.2.2.2 hrank.2.2.1
  have he := h.entry
  rw [hdoc, h'.entry] at he
  exact (Option.some.inj he).symm

theorem sorted_perm (hp : docs.Perm docs') (hd : Distinct docs)
    (visit visit' : Visit SOPDocument) (labels : Labels) (now : Time) :
    sortSOPMatches (collectSOPMatches fold visit docs labels (pilotTenantFromLabels labels) now) =
      sortSOPMatches (collectSOPMatches fold visit' docs' labels (pilotTenantFromLabels labels) now) := by
  rw [sortSOPMatches_eq, sortSOPMatches_eq]
  refine sortBy_eq ?_ (fun e he e' he' => Candidate.rank_inj fold hd ((mem_collectSOPMatches fold).1 he)
    ((mem_collectSOPMatches fold).1 he'))
  have hlatest := latest_perm (hp.filter (eligible (pilotTenantFromLabels labels) now)) (fun a ha b hb =>
    hd.inj a (mem_filter.1 ha).1 b (mem_filter.1 hb).1)
  have hcollected := collectSOPMatches_perm fold visit docs labels (pilotTenantFromLabels labels) now
  have hcollected' := collectSOPMatches_perm fold visit' docs' labels (pilotTenantFromLabels labels) now
  exact (hcollected.trans (hlatest.filterMap _)).trans hcollected'.symm

theorem previewLabelCombo_perm (hp : docs.Perm docs') (hd : Distinct docs)
    (visit visit' : Visit SOPDocument) (labels : Labels) (now : Time) :
    previewLabelComboBinding fold visit docs labels now = previewLabelComboBinding fold visit' docs' labels now := by
  have hsorted := sorted_perm fold hp hd visit visit' labels now
  have hlength : (collectSOPMatches fold visit docs labels (pilotTenantFromLabels labels) now).length =
      (collectSOPMatches fold visit' docs' labels (pilotTenantFromLabels labels) now).length := by
    have h := congrArg List.length hsorted
    rwa [sortSOPMatches_eq, sortSOPMatches_eq, (sortBy_perm _ _).length_eq, (sortBy_perm _ _).length_eq] at h
  simp only [previewLabelComboBinding, hsorted, hlength]

theorem preview_labels {labels' : Labels} (h : ∀ key, label labels key = label labels' key)
    (visit : Visit SOPDocument) (docs : List SOPDocument) (now : Time) :
    previewSOPDocumentBindingAt fold visit docs labels now = previewSOPDocumentBindingAt fold visit docs labels' now := by
  have htenant : pilotTenantFromLabels labels = pilotTenantFromLabels labels' := by
    simp only [pilotTenantFromLabels, h]
  have hpresent : presentMatchDimensions labels = presentMatchDimensions labels' := by
    simp only [presentMatchDimensions, h]
  have hmatched : ∀ doc, matchedDimensions fold doc labels = matchedDimensions fold doc labels' := by
    intro doc
    simp only [matchedDimensions, hpresent, h]
  have hentry : matchEntry fold labels = matchEntry fold labels' := by
    funext doc
    simp only [matchEntry, hmatched]
  have hexplicit : previewExplicitSOPBinding docs labels now = previewExplicitSOPBinding docs labels' now := by
    unfold previewExplicitSOPBinding
    rw [h, htenant]
  have hcombo : previewLabelComboBinding fold visit docs labels now = previewLabelComboBinding fold visit docs labels' now := by
    unfold previewLabelComboBinding collectSOPMatches
    rw [htenant, hpresent, hentry]
  unfold previewSOPDocumentBindingAt
  rw [h, hexplicit, hcombo]

/-- The binding is the same for every order of the documents, of the labels and of the map of latest documents. -/
theorem preview_order_independent {docs docs' : List SOPDocument} (hp : docs.Perm docs') (hd : Distinct docs)
    {labels labels' : Labels} (hlabels : labels.Perm labels') (hkeys : (labels.map Prod.fst).Nodup)
    (visit visit' : Visit SOPDocument) (now : Time) :
    previewSOPDocumentBindingAt fold visit docs labels now = previewSOPDocumentBindingAt fold visit' docs' labels' now := by
  rw [← preview_labels fold (label_perm hlabels hkeys) visit' docs' now]
  unfold previewSOPDocumentBindingAt
  rw [previewExplicit_perm hp hd, previewLabelCombo_perm fold hp hd visit visit']

def reversed : Visit SOPDocument := ⟨List.reverse, List.reverse_perm⟩

theorem preview_critical_reversed :
    Distinct [criticalSop "A", criticalSop "B"] ∧
    previewSOPDocumentBindingAt toLower anyOrder [criticalSop "A", criticalSop "B"] criticalLabels 0 =
      previewSOPDocumentBindingAt toLower reversed [criticalSop "B", criticalSop "A"] criticalLabels.reverse 0 := by
  have hd : Distinct [criticalSop "A", criticalSop "B"] := by
    unfold Distinct
    decide
  exact ⟨hd, preview_order_independent toLower (List.Perm.swap _ _ _) hd (reverse_perm _).symm (by decide)
    anyOrder reversed 0⟩

end

end Sop
end DsApm
