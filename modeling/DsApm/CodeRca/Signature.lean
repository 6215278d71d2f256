import DsApm.Lib.Fields
import DsApm.Lib.GoMap
import DsApm.Lib.GoStd
/-!
# Signature — the identity of an error

`signature.go`: alerts with the same signature are one error, and are analysed once.  The values of the labels go into the signature
as they are, and the parts of the key too, so a separator inside one can stand for another's: which errors are taken for one
another is said exactly (`identity_iff`).
-/
namespace DsApm
namespace CodeRca

open GoStd

def signatureKeys : List String := ["alertname", "service.name", "severity", "error_class"]

section Signature

-- `unicode.ToLower`
variable (lower : Char → Char)

def signatureValue (labels : GoMap String String) (key : String) : String :=
  let val := trimSpace ((labels.lookup key).getD "")
  if key = "severity" then String.ofList (val.toList.map lower) else val

def errorSignature (labels : GoMap String String) : String :=
  Separated.join '|' (signatureKeys.filterMap fun key =>
    if trimSpace ((labels.lookup key).getD "") = "" then none else some (key ++ "=" ++ signatureValue lower labels key))

structure DedupInput where
  orgID : String
  service : String
  signature : String
  deriving DecidableEq, Repr

def DedupInput.preimage (t : DedupInput) : List Char :=
  t.orgID.toList ++ '\x00' :: (t.service.toList ++ '\x00' :: t.signature.toList)

def dedupKey (sha256 : List Char → String) (t : DedupInput) : String := sha256 t.preimage

/-! ## The signature -/

def SameError (labels labels' : GoMap String String) : Prop :=
  ∀ key ∈ signatureKeys, signatureValue lower labels key = signatureValue lower labels' key

/-- At the first key where the values differ, the second's is the first's and more, and with this more the first's later fields
begin. -/
def Overruns (labels labels' : GoMap String String) : Prop :=
  Fields.Overruns '|' '=' String.toList (fun key => (signatureValue lower labels key).toList)
    (fun key => (signatureValue lower labels' key).toList) signatureKeys

theorem signatureValue_eq_empty {labels : GoMap String String} {key : String} :
    signatureValue lower labels key = "" ↔ trimSpace ((labels.lookup key).getD "") = "" := by
  unfold signatureValue
  dsimp only
  split
  · rw [← String.toList_inj, String.toList_ofList, ← @String.toList_inj (trimSpace _)]
    exact List.map_eq_nil_iff
  · exact Iff.rfl

theorem errorSignature_toList (labels : GoMap String String) : (errorSignature lower labels).toList =
    ['|'].intercalate (Fields.fields '=' String.toList (fun key => (signatureValue lower labels key).toList) signatureKeys) := by
  rw [errorSignature, Separated.join, String.toList_ofList, List.map_filterMap, Fields.fields]
  congr 2
  funext key
  have hempty : trimSpace ((labels.lookup key).getD "") = "" ↔ (signatureValue lower labels key).toList = [] := by
    rw [← signatureValue_eq_empty lower, ← String.toList_inj]
    rfl
  by_cases hval : (signatureValue lower labels key).toList = []
  · rw [if_pos hval, if_pos (hempty.2 hval)]
    rfl
  · rw [if_neg hval, if_neg (mt hempty.1 hval)]
    simp

/-- **Signatures say which error it is** exactly when no value overruns. -/
theorem errorSignature_iff (labels labels' : GoMap String String) :
    (errorSignature lower labels = errorSignature lower labels' ↔ SameError lower labels labels') ↔
      ¬(Overruns lower labels labels' ∨ Overruns lower labels' labels) := by
  have hnames : Function.Injective String.toList := fun _ _ h => String.toList_inj.1 h
  have hnone : ∀ key ∈ signatureKeys, '=' ∉ key.toList := by decide
  have hkeys : signatureKeys.Nodup := by decide
  have hsig : (['|'].intercalate (Fields.fields '=' String.toList (fun key => (signatureValue lower labels key).toList) signatureKeys) =
      ['|'].intercalate (Fields.fields '=' String.toList (fun key => (signatureValue lower labels' key).toList) signatureKeys) ↔
        ∀ key ∈ signatureKeys, (signatureValue lower labels key).toList = (signatureValue lower labels' key).toList) ↔
      ¬(Overruns lower labels labels' ∨ Overruns lower labels' labels) := Fields.joined_inj_iff hnames hnone hkeys
  rw [← errorSignature_toList, ← errorSignature_toList, String.toList_inj] at hsig
  simp only [String.toList_inj] at hsig
  exact hsig

/-! ## The key -/

theorem dedupKey_eq_iff {sha256 : List Char → String} (hsha : Function.Injective sha256) {t t' : DedupInput} :
    dedupKey sha256 t = dedupKey sha256 t' ↔ t.preimage = t'.preimage := hsha.eq_iff

/-- The second's organization, or with the same organization its service, is the first's, a NUL, and more, and with this more
what comes after the first's begins. -/
def DedupInput.Overruns (t t' : DedupInput) : Prop :=
  (∃ more, t'.orgID.toList = t.orgID.toList ++ '\x00' :: more ∧
    t.service.toList ++ '\x00' :: t.signature.toList = more ++ '\x00' :: (t'.service.toList ++ '\x00' :: t'.signature.toList)) ∨
  (t.orgID = t'.orgID ∧ ∃ more, t'.service.toList = t.service.toList ++ '\x00' :: more ∧
    t.signature.toList = more ++ '\x00' :: t'.signature.toList)

theorem preimage_eq_iff {t t' : DedupInput} : t.preimage = t'.preimage ↔ t = t' ∨ t.Overruns t' ∨ t'.Overruns t := by
  unfold DedupInput.preimage
  rw [Separated.append_cons_eq_iff, Separated.append_cons_eq_iff, String.toList_inj, String.toList_inj, String.toList_inj]
  constructor
  · rintro (⟨horg, ⟨hsvc, hsig⟩ | hover | hover⟩ | hover | hover)
    · exact .inl (DedupInput.mk.injEq .. ▸ ⟨horg, hsvc, hsig⟩)
    · exact .inr (.inl (.inr ⟨horg, hover⟩))
    · exact .inr (.inr (.inr ⟨horg.symm, hover⟩))
    · exact .inr (.inl (.inl hover))
    · exact .inr (.inr (.inl hover))
  · rintro (rfl | (hover | ⟨horg, hover⟩) | (hover | ⟨horg, hover⟩))
    · exact .inl ⟨rfl, .inl ⟨rfl, rfl⟩⟩
    · exact .inr (.inl hover)
    · exact .inl ⟨horg, .inr (.inl hover)⟩
    · exact .inr (.inr hover)
    · exact .inl ⟨horg.symm, .inr (.inr hover)⟩

theorem DedupInput.Overruns.ne {t t' : DedupInput} (h : t.Overruns t') : t ≠ t' := by
  rintro rfl
  rcases h with ⟨more, h, -⟩ | ⟨-, more, h, -⟩ <;> simp at h

/-- **The preimage says what it is made of** exactly when no part overruns. -/
theorem preimage_iff (t t' : DedupInput) :
    (t.preimage = t'.preimage → t = t') ↔ ¬(t.Overruns t' ∨ t'.Overruns t) := by
  rw [preimage_eq_iff]
  constructor
  · intro h hover
    exact hover.elim (fun hover => hover.ne (h (.inr (.inl hover)))) (fun hover => hover.ne (h (.inr (.inr hover))).symm)
  · intro h hor
    exact hor.resolve_right h

/-- **Error signature injectivity**: two errors are told apart exactly when no value of a label overruns, and two keys exactly when
no part of what is hashed does. -/
theorem identity_iff (labels labels' : GoMap String String) (t t' : DedupInput) :
    ((errorSignature lower labels = errorSignature lower labels' ↔ SameError lower labels labels') ↔
      ¬(Overruns lower labels labels' ∨ Overruns lower labels' labels)) ∧
    ((t.preimage = t'.preimage → t = t') ↔ ¬(t.Overruns t' ∨ t'.Overruns t)) :=
  ⟨errorSignature_iff lower labels labels', preimage_iff t t'⟩

end Signature

def alertLabels (es : List (String × String)) : GoMap String String := es.foldl (fun m e => m.insert e.1 e.2) ∅

/-- A name that holds a service is taken for the name with the service. -/
theorem errors_taken_for_one :
    ¬(errorSignature toLower (alertLabels [("alertname", "Slow|service.name=cart")]) =
        errorSignature toLower (alertLabels [("alertname", "Slow"), ("service.name", "cart")]) ↔
      SameError toLower (alertLabels [("alertname", "Slow|service.name=cart")])
        (alertLabels [("alertname", "Slow"), ("service.name", "cart")])) := by
  unfold SameError
  decide +kernel

end CodeRca
end DsApm
