import DsApm.Lib.GoStd
import DsApm.Lib.Search
import DsApm.Lib.Separated
/-!
# Fingerprint — the cache key of a builder query

`Fingerprint` of `builder_query.go`: the parts of a query that its cached data depends on, each as a name, a `=` and a text, with `&`
between them.  Nothing is escaped.  Where no text holds a `&` the parts are read back, so queries with one fingerprint are alike in
them; functions are applied after the cache and have no part.
-/
namespace DsApm
namespace QueryFingerprint

open Separated List

/-! ## Queries -/

/-- `Signal`; a text that names none of the three is kept. -/
inductive Signal where
  | traces | logs | metrics
  | other (name : List Char)
  deriving DecidableEq, Repr

def Signal.stringValue : Signal → List Char
  | .traces => "traces".toList
  | .logs => "logs".toList
  | .metrics => "metrics".toList
  | .other name => name

inductive RequestType where
  | timeSeries
  | other (name : List Char)
  deriving DecidableEq, Repr

structure TelemetryFieldKey where
  name : List Char
  fieldDataType : List Char
  fieldContext : List Char
  signal : List Char
  deriving DecidableEq, Repr

structure OrderBy where
  key : TelemetryFieldKey
  direction : List Char
  deriving DecidableEq, Repr

/-- The threshold as `%f` writes it. -/
@[ext]
structure ComparisonSpaceAggregationParam where
  operator : List Char
  threshold : List Char
  deriving DecidableEq, Repr

structure MetricAggregation where
  metricName : List Char
  temporality : List Char
  timeAggregation : List Char
  spaceAggregation : List Char
  comparisonSpaceAggregationParam : Option ComparisonSpaceAggregationParam
  deriving DecidableEq, Repr

inductive Aggregation where
  | trace (expression : List Char)
  | log (expression : List Char)
  | metric (a : MetricAggregation)
  deriving DecidableEq, Repr

structure QueryBuilderQuery (F : Type) where
  stepInterval : Int
  signal : Signal
  source : List Char
  aggregations : List Aggregation
  /-- The expression of the filter, if there is a filter. -/
  filter : Option (List Char)
  groupBy : List TelemetryFieldKey
  order : List OrderBy
  limit : Int
  offset : Int
  having : Option (List Char)
  functions : List F
  shiftBy : Int
  deriving DecidableEq, Repr

/-! ## The texts -/

def ComparisonSpaceAggregationParam.stringValue (p : ComparisonSpaceAggregationParam) : List Char :=
  "operator=".toList ++ p.operator ++ ":threshold=".toList ++ p.threshold

def aggregationText : Aggregation → List Char
  | .trace expression => expression
  | .log expression => expression
  | .metric a =>
    a.metricName ++ ':' :: (a.temporality ++ ':' :: (a.timeAggregation ++ ':' :: (a.spaceAggregation ++ ':' ::
      (a.comparisonSpaceAggregationParam.map ComparisonSpaceAggregationParam.stringValue).getD [])))

def fingerprintFieldKey (key : TelemetryFieldKey) : List Char :=
  key.name ++ '-' :: (key.fieldDataType ++ '-' :: (key.fieldContext ++ '-' :: key.signal))

def fingerprintOrderBy (o : OrderBy) : List Char := fingerprintFieldKey o.key ++ ':' :: o.direction

def bracketed (parts : List (List Char)) : List Char := '[' :: ([','].intercalate parts ++ [']'])

def intText : Int → List Char
  | .ofNat n => Nat.toDigits 10 n
  | .negSucc n => '-' :: Nat.toDigits 10 (n + 1)

section Fingerprint
variable {F V : Type}
-- `Duration.String` and `fmt.Sprint`
variable (duration : Int → List Char) (sprint : V → List Char)

def partIf (p : Prop) [Decidable p] (text : List Char) : Option (List Char) := if p then some text else none

namespace QueryBuilderQuery

def filterExpression (q : QueryBuilderQuery F) : List Char := q.filter.getD []
def havingExpression (q : QueryBuilderQuery F) : List Char := q.having.getD []

/-- The variables whose `$name` occurs in the filter, in the order in which the map is visited. -/
def used (q : QueryBuilderQuery F) (vars : List (List Char × V)) : List (List Char × V) :=
  if q.filterExpression = [] then [] else vars.filter fun v => GoStd.contains q.filterExpression ('$' :: v.1)

def front (q : QueryBuilderQuery F) : List (String × Option (List Char)) :=
  [("signal", some q.signal.stringValue), ("source", some q.source), ("step", some (duration q.stepInterval)),
    ("aggs", partIf (q.aggregations ≠ []) (bracketed (q.aggregations.map aggregationText))),
    ("filter", partIf (q.filterExpression ≠ []) q.filterExpression)]

def back (q : QueryBuilderQuery F) : List (String × Option (List Char)) :=
  [("groupby", partIf (q.groupBy ≠ []) (bracketed (q.groupBy.map fingerprintFieldKey))),
    ("order", partIf (q.order ≠ []) (bracketed (q.order.map fingerprintOrderBy))),
    ("limit", partIf (0 < q.limit) (intText q.limit)), ("offset", partIf (0 < q.offset) (intText q.offset)),
    ("having", partIf (q.havingExpression ≠ []) q.havingExpression), ("shiftby", partIf (q.shiftBy ≠ 0) (intText q.shiftBy))]

end QueryBuilderQuery

def present (parts : List (String × Option (List Char))) : List (List Char × List Char) :=
  parts.flatMap fun part => part.2.toList.map fun text => (part.1.toList, text)

def QueryBuilderQuery.sections (q : QueryBuilderQuery F) (vars : List (List Char × V)) : List (List Char × List Char) :=
  present (q.front duration) ++ (q.used vars).map (fun v => (v.1, sprint v.2)) ++ present q.back

def keyed (part : List Char × List Char) : List Char := part.1 ++ '=' :: part.2

/-- `Fingerprint`; `vars` are the entries of the map in the order in which they are visited. -/
def fingerprint (q : QueryBuilderQuery F) (kind : RequestType) (vars : List (List Char × V)) : List Char :=
  if (q.signal = .traces ∨ q.signal = .logs) ∧ kind ≠ .timeSeries then []
  else ['&'].intercalate ("builder".toList :: (q.sections duration sprint vars).map keyed)

end Fingerprint

/-! ## Parts and lists are read back -/

variable {t : List Char}

theorem append_cons_inj_right {c : Char} {a b s : List Char} (hs : c ∉ s) (ht : c ∉ t) (h : a ++ c :: s = b ++ c :: t) :
    a = b ∧ s = t := by
  have hrev : s.reverse ++ c :: a.reverse = t.reverse ++ c :: b.reverse := by
    have := congrArg List.reverse h
    simpa using this
  obtain ⟨hst, hab⟩ := append_cons_inj (fun hm => hs (mem_reverse.1 hm)) (fun hm => ht (mem_reverse.1 hm)) hrev
  exact ⟨reverse_injective hab, reverse_injective hst⟩

variable {xs ys : List (List Char)}

theorem intercalate_inj {c : Char} (hx : xs ≠ []) (hy : ys ≠ []) (hxs : ∀ x ∈ xs, c ∉ x)
    (hys : ∀ y ∈ ys, c ∉ y) (h : [c].intercalate xs = [c].intercalate ys) : xs = ys := by
  rw [← splitOn_intercalate c hxs hx, h, splitOn_intercalate c hys hy]

theorem bracketed_inj (hx : xs ≠ []) (hy : ys ≠ []) (hxs : ∀ x ∈ xs, ',' ∉ x)
    (hys : ∀ y ∈ ys, ',' ∉ y) (h : bracketed xs = bracketed ys) : xs = ys :=
  intercalate_inj hx hy hxs hys (append_cancel_right (List.cons.inj h).2)

theorem map_inj_on {α β : Type} {f : α → β} : ∀ {xs ys : List α}, (∀ x ∈ xs, ∀ y ∈ ys, f x = f y → x = y) → xs.map f = ys.map f → xs = ys
  | [], [], _, _ => rfl
  | x :: xs, y :: ys, hf, h => by
    obtain ⟨hhead, htail⟩ := List.cons.inj h
    rw [hf x mem_cons_self y mem_cons_self hhead, map_inj_on (fun x' hx y' hy =>
      hf x' (mem_cons_of_mem x hx) y' (mem_cons_of_mem y hy)) htail]

theorem map_keyed_inj {xs ys : List (List Char × List Char)} (hx : ∀ x ∈ xs, '=' ∉ x.1) (hy : ∀ y ∈ ys, '=' ∉ y.1)
    (h : xs.map keyed = ys.map keyed) : xs = ys := by
  apply map_inj_on _ h
  intro x hxs y hys hkeyed
  obtain ⟨hname, htext⟩ := append_cons_inj (hx x hxs) (hy y hys) hkeyed
  exact Prod.ext hname htext

theorem name_of_mem_present {parts : List (String × Option (List Char))} {x : List Char × List Char} (h : x ∈ present parts) :
    x.1 ∈ (parts.map Prod.fst).map String.toList := by
  obtain ⟨part, hpart, hx⟩ := mem_flatMap.1 h
  obtain ⟨text, _, rfl⟩ := List.mem_map.1 hx
  exact List.mem_map_of_mem (List.mem_map_of_mem hpart)

theorem present_cons (name : String) (text : Option (List Char)) (parts : List (String × Option (List Char))) :
    present ((name, text) :: parts) = text.toList.map (name.toList, ·) ++ present parts :=
  flatMap_cons

theorem not_mem_present {name : String} {text : List Char} {parts : List (String × Option (List Char))}
    (h : name ∉ parts.map Prod.fst) : (name.toList, text) ∉ present parts := by
  intro hm
  obtain ⟨name', hname, heq⟩ := List.mem_map.1 (name_of_mem_present hm)
  exact h (String.toList_inj.1 heq ▸ hname)

/-- **Parts of different names are told apart**, those that are missing too. -/
theorem present_inj : ∀ {xs ys : List (String × Option (List Char))}, xs.map Prod.fst = ys.map Prod.fst → (xs.map Prod.fst).Nodup →
    present xs = present ys → xs = ys
  | [], [], _, _, _ => rfl
  | (n, a) :: xs, (m, b) :: ys, hnames, hnd, h => by
    obtain ⟨hname, htails⟩ := List.cons.inj hnames
    obtain ⟨hnot, hnd'⟩ := nodup_cons.1 hnd
    have hx : ∀ text, (n.toList, text) ∉ present xs := fun _ => not_mem_present hnot
    have hy : ∀ text, (n.toList, text) ∉ present ys := fun _ => not_mem_present (htails ▸ hnot)
    simp only at hname
    subst hname
    rw [present_cons, present_cons] at h
    have hboth : a = b ∧ present xs = present ys := by
      cases a with
      | none =>
        cases b with
        | none => exact ⟨rfl, h⟩
        | some t => exact absurd (by rw [show present xs = _ from h]; simp) (hx t)
      | some s =>
        cases b with
        | none => exact absurd (by rw [← show _ = present ys from h]; simp) (hy s)
        | some t =>
          obtain ⟨hhead, htail⟩ := List.cons.inj h
          exact ⟨congrArg some (Prod.mk.inj hhead).2, htail⟩
    rw [hboth.1, present_inj htails hnd' hboth.2]

theorem present_append (xs ys : List (String × Option (List Char))) : present (xs ++ ys) = present xs ++ present ys :=
  flatMap_append

theorem tail_inj {c : Char} {a b : List Char} (hlen : xs.length = ys.length) (hx : ∀ x ∈ xs, c ∉ x)
    (hy : ∀ y ∈ ys, c ∉ y) (h : a ++ xs.flatMap (c :: ·) = b ++ ys.flatMap (c :: ·)) : a = b ∧ xs = ys := by
  induction xs using List.reverseRecOn generalizing ys with
  | nil =>
    have hys : ys = [] := List.length_eq_zero_iff.1 hlen.symm
    subst hys
    exact ⟨by simpa using h, rfl⟩
  | append_singleton xs x ih =>
    rcases eq_nil_or_concat' ys with hnil | ⟨ys', y, hys⟩
    · simp [hnil] at hlen
    · subst hys
      have hsplit : (a ++ xs.flatMap (c :: ·)) ++ c :: x = (b ++ ys'.flatMap (c :: ·)) ++ c :: y := by simpa using h
      obtain ⟨hinit, hlast⟩ := append_cons_inj_right (hx x (by simp)) (hy y (by simp)) hsplit
      obtain ⟨hab, hxy⟩ := ih (by simpa using hlen) (fun z hz => hx z (by simp [hz])) (fun z hz => hy z (by simp [hz])) hinit
      exact ⟨hab, by rw [hxy, hlast]⟩

theorem intText_inj {a b : Int} (h : intText a = intText b) : a = b := by
  have hminus : ∀ n, '-' ∉ Nat.toDigits 10 n := GoStd.not_mem_toDigits rfl
  cases a with
  | ofNat m =>
    cases b with
    | ofNat n => exact congrArg Int.ofNat (GoStd.toDigits_inj h)
    | negSucc n => exact absurd (by rw [show Nat.toDigits 10 m = _ from h]; exact mem_cons_self) (hminus m)
  | negSucc m =>
    cases b with
    | ofNat n => exact absurd (by rw [← show _ = Nat.toDigits 10 n from h]; exact mem_cons_self) (hminus n)
    | negSucc n => exact congrArg Int.negSucc (Nat.succ.inj (GoStd.toDigits_inj (List.cons.inj h).2))

/-! ## The texts of keys and aggregations are read back -/

/-- The enumerations of a key do not contain its separator. -/
structure TelemetryFieldKey.Plain (key : TelemetryFieldKey) : Prop where
  fieldDataType : '-' ∉ key.fieldDataType
  fieldContext : '-' ∉ key.fieldContext
  signal : '-' ∉ key.signal

structure MetricAggregation.Plain (a : MetricAggregation) : Prop where
  temporality : ':' ∉ a.temporality
  timeAggregation : ':' ∉ a.timeAggregation
  spaceAggregation : ':' ∉ a.spaceAggregation
  comparison : ∀ p ∈ a.comparisonSpaceAggregationParam, ':' ∉ p.operator ∧ ':' ∉ p.threshold

theorem fingerprintFieldKey_inj {k l : TelemetryFieldKey} (hk : k.Plain) (hl : l.Plain)
    (h : fingerprintFieldKey k = fingerprintFieldKey l) : k = l := by
  have htail : k.name ++ [k.fieldDataType, k.fieldContext, k.signal].flatMap ('-' :: ·) =
      l.name ++ [l.fieldDataType, l.fieldContext, l.signal].flatMap ('-' :: ·) := by simpa [fingerprintFieldKey] using h
  obtain ⟨hname, hrest⟩ := tail_inj (by rfl) (by simp [hk.fieldDataType, hk.fieldContext, hk.signal])
    (by simp [hl.fieldDataType, hl.fieldContext, hl.signal]) htail
  cases k
  cases l
  simp_all

theorem fingerprintOrderBy_inj {o p : OrderBy} (ho : o.key.Plain ∧ ':' ∉ o.direction) (hp : p.key.Plain ∧ ':' ∉ p.direction)
    (h : fingerprintOrderBy o = fingerprintOrderBy p) : o = p := by
  obtain ⟨hkey, hdirection⟩ := append_cons_inj_right ho.2 hp.2 h
  have hkeys := fingerprintFieldKey_inj ho.1 hp.1 hkey
  cases o
  cases p
  simp_all

theorem stringValue_eq (p : ComparisonSpaceAggregationParam) :
    p.stringValue = "operator=".toList ++ (p.operator ++ ':' :: ("threshold=".toList ++ p.threshold)) := by
  have htag : ":threshold=".toList = ':' :: "threshold=".toList := by simp
  have hsplit := congrArg (fun tag => "operator=".toList ++ (p.operator ++ (tag ++ p.threshold))) htag
  unfold ComparisonSpaceAggregationParam.stringValue
  rw [List.append_assoc, List.append_assoc]
  exact hsplit

theorem metricText_eq (a : MetricAggregation) : aggregationText (.metric a) =
    (a.metricName ++ [a.temporality, a.timeAggregation, a.spaceAggregation].flatMap (':' :: ·)) ++
      ':' :: (a.comparisonSpaceAggregationParam.map ComparisonSpaceAggregationParam.stringValue).getD [] := by
  simp [aggregationText]

theorem metricText_some {a : MetricAggregation} {p : ComparisonSpaceAggregationParam} (hp : a.comparisonSpaceAggregationParam = some p) :
    aggregationText (.metric a) = ((a.metricName ++ [a.temporality, a.timeAggregation, a.spaceAggregation].flatMap (':' :: ·)) ++
      ':' :: ("operator=".toList ++ p.operator)) ++ ':' :: ("threshold=".toList ++ p.threshold) := by
  rw [metricText_eq, hp, Option.map_some, Option.getD_some, stringValue_eq, List.append_assoc _ (':' :: ("operator=".toList ++ _)),
    cons_append, List.append_assoc "operator=".toList]

theorem operatorTag_free (h : ':' ∉ t) : ':' ∉ "operator=".toList ++ t := by simp [h]

theorem thresholdTag_free (h : ':' ∉ t) : ':' ∉ "threshold=".toList ++ t := by simp [h]

theorem metricText_inj {a b : MetricAggregation} (ha : a.Plain) (hb : b.Plain)
    (h : aggregationText (.metric a) = aggregationText (.metric b)) : a = b := by
  have hends : a.comparisonSpaceAggregationParam = b.comparisonSpaceAggregationParam ∧
      a.metricName ++ [a.temporality, a.timeAggregation, a.spaceAggregation].flatMap (':' :: ·) =
        b.metricName ++ [b.temporality, b.timeAggregation, b.spaceAggregation].flatMap (':' :: ·) := by
    cases hp : a.comparisonSpaceAggregationParam with
    | none =>
      cases hq : b.comparisonSpaceAggregationParam with
      | none =>
        rw [metricText_eq, metricText_eq, hp, hq] at h
        exact ⟨rfl, (append_cons_inj_right (by simp) (by simp) h).1⟩
      | some q =>
        rw [metricText_eq, hp, metricText_some hq] at h
        exact absurd (append_cons_inj_right (by simp) (thresholdTag_free (hb.comparison q hq).2) h).2 (by simp)
    | some p =>
      cases hq : b.comparisonSpaceAggregationParam with
      | none =>
        rw [metricText_some hp, metricText_eq, hq] at h
        exact absurd (append_cons_inj_right (thresholdTag_free (ha.comparison p hp).2) (by simp) h).2 (by simp)
      | some q =>
        obtain ⟨hop, htop⟩ := ha.comparison p hp
        obtain ⟨hoq, htoq⟩ := hb.comparison q hq
        rw [metricText_some hp, metricText_some hq] at h
        obtain ⟨hinit, hthreshold⟩ := append_cons_inj_right (thresholdTag_free htop) (thresholdTag_free htoq) h
        obtain ⟨hfront, hoperator⟩ := append_cons_inj_right (operatorTag_free hop) (operatorTag_free hoq) hinit
        refine ⟨?_, hfront⟩
        exact congrArg some (ComparisonSpaceAggregationParam.ext (append_cancel_left hoperator)
          (append_cancel_left hthreshold))
  obtain ⟨hname, hrest⟩ := tail_inj (by rfl) (by simp [ha.temporality, ha.timeAggregation, ha.spaceAggregation])
    (by simp [hb.temporality, hb.timeAggregation, hb.spaceAggregation]) hends.2
  cases a
  cases b
  simp_all

/-! ## Sections -/

def sectionNames : List String :=
  ["signal", "source", "step", "aggs", "filter", "groupby", "order", "limit", "offset", "having", "shiftby"]

def Aggregation.signal : Aggregation → Signal
  | .trace _ => .traces
  | .log _ => .logs
  | .metric _ => .metrics

section Alike
variable {F V : Type}
variable (duration : Int → List Char) (sprint : V → List Char)

/-- **No text holds the separators of its place.** -/
structure Plain (q : QueryBuilderQuery F) (vars : List (List Char × V)) : Prop where
  ampersand : ∀ part ∈ q.sections duration sprint vars, '&' ∉ keyed part
  names : ∀ v ∈ q.used vars, '=' ∉ v.1 ∧ v.1 ∉ sectionNames.map String.toList
  typed : ∀ a ∈ q.aggregations, a.signal = q.signal
  aggregations : ∀ a ∈ q.aggregations, ',' ∉ aggregationText a
  metrics : ∀ a, Aggregation.metric a ∈ q.aggregations → a.Plain
  groupBy : ∀ key ∈ q.groupBy, ',' ∉ fingerprintFieldKey key ∧ key.Plain
  order : ∀ o ∈ q.order, ',' ∉ fingerprintOrderBy o ∧ o.key.Plain ∧ ':' ∉ o.direction

/-- **Alike** in all that the cached data depends on; variables in the values that are printed. -/
structure Alike (p q : QueryBuilderQuery F) (vs ws : List (List Char × V)) : Prop where
  source : p.source = q.source
  aggregations : p.aggregations = q.aggregations
  filter : p.filterExpression = q.filterExpression
  used : (p.used vs).map (fun v => (v.1, sprint v.2)) = (q.used ws).map (fun v => (v.1, sprint v.2))
  groupBy : p.groupBy = q.groupBy
  order : p.order = q.order
  limit : p.limit.toNat = q.limit.toNat
  offset : p.offset.toNat = q.offset.toNat
  having : p.havingExpression = q.havingExpression
  shiftBy : p.shiftBy = q.shiftBy

def Cached (q : QueryBuilderQuery F) (kind : RequestType) : Prop := (q.signal = .traces ∨ q.signal = .logs) → kind = .timeSeries

variable {duration sprint}

theorem partIf_inj {p q : Prop} [Decidable p] [Decidable q] {s t : List Char} (h : partIf p s = partIf q t) :
    (p ↔ q) ∧ (p → s = t) := by
  unfold partIf at h
  split at h <;> split at h <;> simp_all

theorem partIf_text_inj {s t : List Char} (h : partIf (s ≠ []) s = partIf (t ≠ []) t) : s = t := by
  obtain ⟨hiff, heq⟩ := partIf_inj h
  by_cases hs : s = []
  · rw [hs, not_not.1 (mt hiff.2 (not_not.2 hs))]
  · exact heq hs

theorem partIf_bracketed_inj {α : Type} {f : α → List Char} {xs ys : List α} (hf : ∀ x ∈ xs, ∀ y ∈ ys, f x = f y → x = y)
    (hx : ∀ x ∈ xs, ',' ∉ f x) (hy : ∀ y ∈ ys, ',' ∉ f y)
    (h : partIf (xs ≠ []) (bracketed (xs.map f)) = partIf (ys ≠ []) (bracketed (ys.map f))) : xs = ys := by
  obtain ⟨hiff, heq⟩ := partIf_inj h
  by_cases hxs : xs = []
  · rw [hxs, not_not.1 (mt hiff.2 (not_not.2 hxs))]
  · have hys := hiff.1 hxs
    have hmaps : xs.map f = ys.map f := by
      apply bracketed_inj (by simpa using hxs) (by simpa using hys) _ _ (heq hxs)
      · simpa using hx
      · simpa using hy
    exact map_inj_on hf hmaps

theorem partIf_toNat_inj {a b : Int} (h : partIf (0 < a) (intText a) = partIf (0 < b) (intText b)) : a.toNat = b.toNat := by
  obtain ⟨hiff, heq⟩ := partIf_inj h
  by_cases ha : 0 < a
  · rw [intText_inj (heq ha)]
  · have hb := mt hiff.2 ha
    omega

theorem partIf_int_inj {a b : Int} (h : partIf (a ≠ 0) (intText a) = partIf (b ≠ 0) (intText b)) : a = b := by
  obtain ⟨hiff, heq⟩ := partIf_inj h
  by_cases ha : a = 0
  · rw [ha, not_not.1 (mt hiff.2 (not_not.2 ha))]
  · exact intText_inj (heq ha)

theorem names_sections (d : Int → List Char) (q : QueryBuilderQuery F) : (q.front d ++ q.back).map Prod.fst = sectionNames := rfl

theorem nodup_sectionNames : sectionNames.Nodup := by decide

theorem equalSign_free {name : String} (h : name ∈ sectionNames) : '=' ∉ name.toList := by
  revert name
  decide

theorem filter_between {α : Type} {f : α → Bool} {xs ys zs : List α} (hx : ∀ x ∈ xs, f x = true) (hy : ∀ y ∈ ys, f y = false)
    (hz : ∀ z ∈ zs, f z = true) :
    (xs ++ ys ++ zs).filter f = xs ++ zs ∧ (xs ++ ys ++ zs).filter (fun a => !f a) = ys := by
  rw [filter_append, filter_append, filter_append, filter_append]
  constructor
  · rw [filter_eq_self.2 hx, filter_eq_self.2 hz, filter_eq_nil_iff.2 (by simpa using hy), append_nil]
  · rw [filter_eq_nil_iff.2 (by simpa using hx), filter_eq_self.2 (by simpa using hy),
      filter_eq_nil_iff.2 (by simpa using hz), append_nil, nil_append]

variable {q : QueryBuilderQuery F} {vars : List (List Char × V)}

theorem filter_sections (h : Plain duration sprint q vars) :
    (q.sections duration sprint vars).filter (fun x => decide (x.1 ∈ sectionNames.map String.toList)) =
        present (q.front duration ++ q.back) ∧
      (q.sections duration sprint vars).filter (fun x => !decide (x.1 ∈ sectionNames.map String.toList)) =
        (q.used vars).map fun v => (v.1, sprint v.2) := by
  have hparts : ∀ x ∈ present (q.front duration) ++ present q.back, x.1 ∈ sectionNames.map String.toList := by
    intro x hx
    rw [← present_append] at hx
    exact names_sections duration q ▸ name_of_mem_present hx
  have hused : ∀ x ∈ (q.used vars).map (fun v => (v.1, sprint v.2)), x.1 ∉ sectionNames.map String.toList := by
    intro x hx
    obtain ⟨v, hv, rfl⟩ := List.mem_map.1 hx
    exact (h.names v hv).2
  rw [present_append]
  exact filter_between (fun x hx => decide_eq_true (hparts x (mem_append_left _ hx))) (fun x hx => decide_eq_false (hused x hx))
    (fun x hx => decide_eq_true (hparts x (mem_append_right _ hx)))

theorem equalSign_sections (h : Plain duration sprint q vars) :
    ∀ x ∈ q.sections duration sprint vars, '=' ∉ x.1 := by
  intro x hx
  by_cases hin : x.1 ∈ sectionNames.map String.toList
  · obtain ⟨name, hname, heq⟩ := List.mem_map.1 hin
    exact heq ▸ equalSign_free hname
  · have hused : x ∈ (q.used vars).map fun v => (v.1, sprint v.2) := by
      rw [← (filter_sections h).2]
      exact mem_filter.2 ⟨hx, by simpa using hin⟩
    obtain ⟨v, hv, rfl⟩ := List.mem_map.1 hused
    exact (h.names v hv).1

theorem ampersand_free (h : Plain duration sprint q vars) :
    ∀ text ∈ "builder".toList :: (q.sections duration sprint vars).map keyed, '&' ∉ text := by
  intro text ht
  rcases mem_cons.1 ht with rfl | hmap
  · decide
  · obtain ⟨part, hpart, rfl⟩ := List.mem_map.1 hmap
    exact h.ampersand part hpart

variable {p : QueryBuilderQuery F} {vs ws : List (List Char × V)}

theorem sections_inj {k l : RequestType} (hk : Cached p k) (hl : Cached q l)
    (hp : Plain duration sprint p vs) (hq : Plain duration sprint q ws)
    (h : fingerprint duration sprint p k vs = fingerprint duration sprint q l ws) :
    p.sections duration sprint vs = q.sections duration sprint ws := by
  unfold fingerprint at h
  rw [if_neg (by rintro ⟨hs, hne⟩; exact hne (hk hs)), if_neg (by rintro ⟨hs, hne⟩; exact hne (hl hs))] at h
  have hparts := intercalate_inj (cons_ne_nil _ _) (cons_ne_nil _ _) (ampersand_free hp) (ampersand_free hq) h
  exact map_keyed_inj (equalSign_sections hp) (equalSign_sections hq) (List.cons.inj hparts).2

theorem aggregationText_inj {a b : Aggregation} (h : a.signal = b.signal) (ha : ∀ m, a = .metric m → m.Plain)
    (hb : ∀ m, b = .metric m → m.Plain) (htext : aggregationText a = aggregationText b) : a = b := by
  cases a with
  | trace e =>
    cases b with
    | trace f => exact congrArg _ htext
    | log f => cases h
    | metric m => cases h
  | log e =>
    cases b with
    | trace f => cases h
    | log f => exact congrArg _ htext
    | metric m => cases h
  | metric m =>
    cases b with
    | trace f => cases h
    | log f => cases h
    | metric n => exact congrArg _ (metricText_inj (ha m rfl) (hb n rfl) htext)

/-- **Of queries of one signal, the parts that are not variables are read back.** -/
theorem parts_inj (hp : Plain duration sprint p vs)
    (hq : Plain duration sprint q ws) (hsignal : p.signal = q.signal)
    (h : p.sections duration sprint vs = q.sections duration sprint ws) : Alike sprint p q vs ws := by
  have hparts : p.front duration ++ p.back = q.front duration ++ q.back := by
    apply present_inj ((names_sections duration p).trans (names_sections duration q).symm) (names_sections duration p ▸ nodup_sectionNames)
    rw [← (filter_sections hp).1, ← (filter_sections hq).1, h]
  have hused : (p.used vs).map (fun v => (v.1, sprint v.2)) = (q.used ws).map (fun v => (v.1, sprint v.2)) := by
    rw [← (filter_sections hp).2, ← (filter_sections hq).2, h]
  simp only [QueryBuilderQuery.front, QueryBuilderQuery.back, cons_append, nil_append, List.cons.injEq, Prod.mk.injEq,
    Option.some.injEq, true_and, and_true] at hparts
  obtain ⟨_, hsource, _, haggs, hfilter, hgroupBy, horder, hlimit, hoffset, hhaving, hshiftBy⟩ := hparts
  have haggregations : p.aggregations = q.aggregations := by
    apply partIf_bracketed_inj _ hp.aggregations hq.aggregations haggs
    intro a ha b hb
    exact aggregationText_inj (by rw [hp.typed a ha, hq.typed b hb, hsignal]) (fun m hm => hp.metrics m (hm ▸ ha))
      (fun m hm => hq.metrics m (hm ▸ hb))
  have hkeys : p.groupBy = q.groupBy := by
    apply partIf_bracketed_inj _ (fun k hk => (hp.groupBy k hk).1) (fun k hk => (hq.groupBy k hk).1) hgroupBy
    intro k hk l hl
    exact fingerprintFieldKey_inj (hp.groupBy k hk).2 (hq.groupBy l hl).2
  have horders : p.order = q.order := by
    apply partIf_bracketed_inj _ (fun o ho => (hp.order o ho).1) (fun o ho => (hq.order o ho).1) horder
    intro o ho o' ho'
    exact fingerprintOrderBy_inj (hp.order o ho).2 (hq.order o' ho').2
  exact ⟨hsource, haggregations, partIf_text_inj hfilter, hused, hkeys, horders, partIf_toNat_inj hlimit, partIf_toNat_inj hoffset,
    partIf_text_inj hhaving, partIf_int_inj hshiftBy⟩

theorem sections_of_alike (hsignal : p.signal = q.signal)
    (hstep : p.stepInterval = q.stepInterval) (h : Alike sprint p q vs ws) :
    p.sections duration sprint vs = q.sections duration sprint ws := by
  have hpositive : ∀ {a b : Int}, a.toNat = b.toNat → partIf (0 < a) (intText a) = partIf (0 < b) (intText b) := by
    intro a b hab
    by_cases ha : 0 < a
    · rw [show a = b by omega]
    · rw [partIf, partIf, if_neg ha, if_neg (by omega)]
  unfold QueryBuilderQuery.sections QueryBuilderQuery.front QueryBuilderQuery.back
  rw [hsignal, hstep, h.source, h.aggregations, h.filter, h.used, h.groupBy, h.order, hpositive h.limit, hpositive h.offset, h.having,
    h.shiftBy]

/-! ## The order in which the map is visited -/

theorem used_perm (q : QueryBuilderQuery F) (h : vs.Perm ws) : (q.used vs).Perm (q.used ws) := by
  unfold QueryBuilderQuery.used
  split
  · exact List.Perm.refl _
  · exact h.filter _

theorem sections_perm (q : QueryBuilderQuery F) (h : vs.Perm ws) :
    (q.sections duration sprint vs).Perm (q.sections duration sprint ws) :=
  (((used_perm q h).map _).append_left _).append_right _

theorem sections_of_short (q : QueryBuilderQuery F) (h : vs.Perm ws) (hused : (q.used vs).length ≤ 1) :
    q.sections duration sprint vs = q.sections duration sprint ws := by
  have hsame : q.used vs = q.used ws := by
    cases hu : q.used vs with
    | nil => exact (nil_perm.1 (hu ▸ used_perm q h)).symm
    | cons v others =>
      have hnil : others = [] := List.length_eq_zero_iff.1 (by rw [hu, length_cons] at hused; omega)
      rw [hnil] at hu ⊢
      exact singleton_perm.1 (hu ▸ used_perm q h)
  unfold QueryBuilderQuery.sections
  rw [hsame]

end Alike

def countByHost : QueryBuilderQuery String where
  stepInterval := 60000000000
  signal := .logs
  source := []
  aggregations := [.log "count()".toList]
  filter := some "env = $env".toList
  groupBy := [⟨"host".toList, "string".toList, "resource".toList, []⟩]
  order := []
  limit := 0
  offset := 0
  having := none
  functions := []
  shiftBy := 0

def stepText (d : Int) : List Char := if d = 60000000000 then "1m0s".toList else intText d ++ "ns".toList

theorem countByHost_plain : Plain stepText id countByHost [("env".toList, "prod".toList)] := by
  have hmetrics : ∀ a, Aggregation.metric a ∉ countByHost.aggregations := by
    intro a ha
    cases mem_singleton.1 ha
  have hgroupBy : ∀ key ∈ countByHost.groupBy, key = ⟨"host".toList, "string".toList, "resource".toList, []⟩ := by
    intro key hkey
    exact mem_singleton.1 hkey
  refine ⟨by decide, by decide, by decide, by decide, fun a ha => absurd ha (hmetrics a), ?_, fun o ho => absurd ho not_mem_nil⟩
  intro key hkey
  rw [hgroupBy key hkey]
  exact ⟨by decide, by decide, by decide, by decide⟩

def countByHostCut : QueryBuilderQuery String := { countByHost with functions := ["cutOffMin"] }

theorem countByHostCut_plain : Plain stepText id countByHostCut [("env".toList, "prod".toList)] :=
  ⟨countByHost_plain.ampersand, countByHost_plain.names, countByHost_plain.typed, countByHost_plain.aggregations,
    countByHost_plain.metrics, countByHost_plain.groupBy, countByHost_plain.order⟩

end QueryFingerprint
end DsApm
