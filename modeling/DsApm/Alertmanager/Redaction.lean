import DsApm.Lib.Replace
import DsApm.Lib.Url
import DsApm.Valuer.Texts
/-!
# Redaction — what leaves of an incident's values

`incident_payload.go` of `alertmanagertypes`.  A value that is an http(s) URL is first rewritten without its credentials and without
the query keys that look sensitive; a value that shows a secret is dropped whole; in what is left e-mail addresses, mobile numbers
and long secrets, in this order, are replaced by placeholders.  Texts are lists of characters.
-/
namespace DsApm
namespace Redaction

open Regex NetUrl GoStd
open Valuer (trim isSpace_toLower)

/-! ## The patterns -/

/-- `[A-Za-z0-9_-]` -/
def token : Re := .cls fun c => c.isAlphanum || c == '_' || c == '-'
def digit : Re := .cls Char.isDigit
/-- `[-\s]?` -/
def dashOrSpace : Re := opt (.alt (lit "-") space)

def incidentJWTLikePattern : Re :=
  seqs [.wordBoundary, lit "eyJ", atLeast 20 token, lit ".", atLeast 20 token, lit ".", atLeast 10 token, .wordBoundary]

def incidentValueEmailPattern : Re :=
  seqs [.wordBoundary, plus (.cls fun c => c.isAlphanum || c ∈ ['.', '_', '%', '+', '-']), lit "@",
    plus (.cls fun c => c.isAlphanum || c ∈ ['.', '-']), lit ".", atLeast 2 (.cls Char.isAlpha), .wordBoundary]

def incidentValueKoreanMobilePattern : Re :=
  seqs [opt (seqs [opt (lit "+"), lit "82", dashOrSpace]), opt (lit "0"), lit "1", oneOf ['0', '1', '6', '7', '8', '9'],
    opt (alts [lit "-", lit ")", space]), rep 3 digit, opt digit, dashOrSpace, rep 4 digit]

def incidentValueLongSecretPattern : Re := seqs [.wordBoundary, atLeast 32 token, .wordBoundary]

/-! ## URLs -/

def incidentSensitiveURLKeys : List String :=
  ["access_token", "api_key", "apikey", "auth", "authorization", "bearer", "client_secret", "password", "secret", "token"]

section Sanitizing
-- `unicode.IsLetter(r) || unicode.IsDigit(r)`, of characters that are not ASCII.
variable (letterOrDigit : Char → Bool)

def incidentURLKeyLooksSensitive (key : List Char) : Bool :=
  let key := (trim key).map fun r =>
    if (if r.toNat < 0x80 then r.isAlphanum else letterOrDigit r) then toLower r else '_'
  incidentSensitiveURLKeys.any fun k => k.toList == key

def isWeb (u : URL) : Bool := u.scheme == "http".toList || u.scheme == "https".toList

/-- `sanitizeIncidentURL`: no text when the value is no http(s) URL. -/
def sanitizeIncidentURL (value : List Char) : Option (List Char) :=
  match parse value with
  | none => none
  | some parsed =>
    if !isWeb parsed then none
    else
      let query := (parseQuery parsed.rawQuery).filter fun p => !incidentURLKeyLooksSensitive letterOrDigit (runes p.1)
      some { parsed with user := none, rawQuery := encodeValues query }.string

/-! ## Values -/

def secretMarkers : List String :=
  ["token=", "access_token", "client_secret", "api_key", "apikey", "password=", "secret="]

def incidentValueLooksSecret (value : List Char) : Bool :=
  let normalized := (trim value).map toLower
  if normalized = [] then false
  else contains normalized "bearer ".toList || contains normalized "-----begin ".toList ||
    matchFrom incidentJWTLikePattern none value || secretMarkers.any fun marker => contains normalized marker.toList

def placeholder (name : String) : List Char := marked '[' ']' name.toList

def redactIncidentPII (value : List Char) : List Char :=
  replaceAll incidentValueKoreanMobilePattern (placeholder "redacted-phone")
    (replaceAll incidentValueEmailPattern (placeholder "redacted-email") value)

def redactIncidentLongSecret (value : List Char) : List Char :=
  replaceAll incidentValueLongSecretPattern (placeholder "redacted-secret") value

def rewritten (value : List Char) : List Char := (sanitizeIncidentURL letterOrDigit (trim value)).getD (trim value)

def sanitizeIncidentValue (value : List Char) : List Char × Bool :=
  if trim value = [] then ([], false)
  else
    let before := rewritten letterOrDigit value
    if incidentValueLooksSecret before then (marked '[' ']' "redacted".toList, true)
    else
      let after := redactIncidentLongSecret (redactIncidentPII before)
      (after, decide (before ≠ trim value) || decide (after ≠ before))

/-- `SanitizeIncidentValue`; the metric that counts redactions is left out. -/
def SanitizeIncidentValue (value : List Char) : List Char := (sanitizeIncidentValue letterOrDigit value).1

end Sanitizing

/-! ## The three replacements -/

def passes (value : List Char) : List Char := redactIncidentLongSecret (redactIncidentPII value)

def names : List String := ["redacted-email", "redacted-phone", "redacted-secret"]

theorem email_marker {name : String} (h : name ∈ names) : Marker incidentValueEmailPattern '[' ']' name.toList := by
  have hall : ∀ name ∈ names, matchFrom incidentValueEmailPattern none name.toList = false := by decide +kernel
  exact ⟨by decide, by decide, by decide, hall name h⟩

theorem mobile_marker {name : String} (h : name ∈ names) : Marker incidentValueKoreanMobilePattern '[' ']' name.toList := by
  have hall : ∀ name ∈ names, matchFrom incidentValueKoreanMobilePattern none name.toList = false := by decide +kernel
  exact ⟨by decide, by decide, by decide, hall name h⟩

theorem jwt_marker {name : String} (h : name ∈ names) : Marker incidentJWTLikePattern '[' ']' name.toList := by
  have hall : ∀ name ∈ names, matchFrom incidentJWTLikePattern none name.toList = false := by decide +kernel
  exact ⟨by decide, by decide, by decide, hall name h⟩

theorem secret_marker {name : String} (h : name ∈ names) : Marker incidentValueLongSecretPattern '[' ']' name.toList := by
  have hall : ∀ name ∈ names, matchFrom incidentValueLongSecretPattern none name.toList = false := by decide +kernel
  exact ⟨by decide, by decide, by decide, hall name h⟩

theorem email_mem : "redacted-email" ∈ names := by decide
theorem phone_mem : "redacted-phone" ∈ names := by decide
theorem secret_mem : "redacted-secret" ∈ names := by decide

def separators : List Char := ['?', '#', '&', '=', ';', ':']

theorem fence_separators {c : Char} (hc : c ∈ separators) : incidentValueEmailPattern.fence c = true ∧
    incidentValueKoreanMobilePattern.fence c = true ∧ incidentValueLongSecretPattern.fence c = true := by
  have hall : ∀ c ∈ separators, incidentValueEmailPattern.fence c = true ∧
      incidentValueKoreanMobilePattern.fence c = true ∧ incidentValueLongSecretPattern.fence c = true :=
    Listed.forall_mem (by decide)
  exact hall c hc

def Fences (c : Char) : Prop := incidentValueEmailPattern.fence c = true ∧
  incidentValueKoreanMobilePattern.fence c = true ∧ incidentValueLongSecretPattern.fence c = true

theorem passes_fence {c : Char} (hc : Fences c) (a t : List Char) : passes (a ++ c :: t) = passes a ++ c :: passes t := by
  obtain ⟨hemail, hmobile, hsecret⟩ := hc
  rw [passes, redactIncidentPII, replaceAll_fence (email_marker email_mem).anchored hemail,
    replaceAll_fence (mobile_marker phone_mem).anchored hmobile, redactIncidentLongSecret,
    replaceAll_fence (secret_marker secret_mem).anchored hsecret]
  rfl

/-- **The parts of a URL are redacted by themselves.** -/
theorem passes_separator {c : Char} (hc : c ∈ separators) (a t : List Char) : passes (a ++ c :: t) = passes a ++ c :: passes t :=
  passes_fence (fence_separators hc) a t

theorem mem_passes {x : Char} {v : List Char} (h : x ∈ passes v) : x ∈ v ∨ ∃ name ∈ names, x ∈ placeholder name := by
  rcases mem_replaceAll h with h | h
  · rcases mem_replaceAll h with h | h
    · rcases mem_replaceAll h with h | h
      · exact Or.inl h
      · exact Or.inr ⟨_, email_mem, h⟩
    · exact Or.inr ⟨_, phone_mem, h⟩
  · exact Or.inr ⟨_, secret_mem, h⟩

theorem not_mem_placeholder {c : Char} (hc : c ∈ '%' :: '+' :: separators) : ∀ name ∈ names, c ∉ placeholder name := by
  have hall : ∀ c ∈ '%' :: '+' :: separators, ∀ name ∈ names, c ∉ placeholder name := Listed.forall_mem (by decide +kernel)
  exact hall c hc

theorem mem_passes_iff {c : Char} (hc : c ∈ separators) {v : List Char} : c ∈ passes v ↔ c ∈ v := by
  constructor
  · intro h
    rcases mem_passes h with h | ⟨name, hname, h⟩
    · exact h
    · exact absurd h (not_mem_placeholder (List.mem_cons_of_mem _ (List.mem_cons_of_mem _ hc)) name hname)
  · intro h
    obtain ⟨a, b, rfl, _⟩ := List.eq_append_cons_of_mem h
    rw [passes_separator hc]
    exact List.mem_append_right _ List.mem_cons_self

theorem placeholder_ne_nil (name : String) : placeholder name ≠ [] := List.cons_ne_nil _ _

theorem passes_eq_nil_iff {v : List Char} : passes v = [] ↔ v = [] := by
  rw [passes, redactIncidentLongSecret, replaceAll_eq_nil_iff (placeholder_ne_nil _), redactIncidentPII,
    replaceAll_eq_nil_iff (placeholder_ne_nil _), replaceAll_eq_nil_iff (placeholder_ne_nil _)]

theorem passes_nil : passes [] = [] := passes_eq_nil_iff.2 rfl

theorem cut_passes {c : Char} (hc : c ∈ separators) (v : List Char) :
    cut c (passes v) = (passes (cut c v).1, passes (cut c v).2) := by
  by_cases h : c ∈ v
  · obtain ⟨a, b, rfl, ha⟩ := List.eq_append_cons_of_mem h
    rw [passes_separator hc, cut_append (fun hm => ha ((mem_passes_iff hc).1 hm)), cut_append ha]
  · rw [cut_of_not_mem (fun hm => h ((mem_passes_iff hc).1 hm)), cut_of_not_mem h, passes_nil]

theorem queryText_passes (v : List Char) : queryText (passes v) = passes (queryText v) := by
  rw [queryText, cut_passes (by decide), cut_passes (by decide)]
  rfl

theorem passes_intercalate {c : Char} (hc : c ∈ separators) : ∀ {parts : List (List Char)}, parts ≠ [] →
    passes ([c].intercalate parts) = [c].intercalate (parts.map passes)
  | [x], _ => by simp
  | x :: y :: parts, _ => by
    rw [List.intercalate_cons_cons, List.append_assoc, List.singleton_append, passes_separator hc,
      passes_intercalate hc (List.cons_ne_nil y parts), List.map_cons, List.map_cons, List.map_cons, List.intercalate_cons_cons,
      List.append_assoc, List.singleton_append]

theorem splitOn_passes {c : Char} (hc : c ∈ separators) (v : List Char) : (passes v).splitOn c = (v.splitOn c).map passes := by
  have hne : v.splitOn c ≠ [] := List.splitOn_ne_nil _ _
  have hnone : ∀ part ∈ (v.splitOn c).map passes, c ∉ part := by
    intro part hpart hm
    obtain ⟨x, hx, rfl⟩ := List.mem_map.1 hpart
    exact Separated.not_mem_of_mem_splitOn hx ((mem_passes_iff hc).1 hm)
  calc (passes v).splitOn c = (passes ([c].intercalate (v.splitOn c))).splitOn c := by rw [List.intercalate_splitOn]
    _ = ([c].intercalate ((v.splitOn c).map passes)).splitOn c := by rw [passes_intercalate hc hne]
    _ = (v.splitOn c).map passes := List.splitOn_intercalate c hnone (fun h => hne (List.map_eq_nil_iff.1 h))

/-- **Every key and value of a query is redacted by itself.** -/
theorem rawPairs_passes (query : List Char) : rawPairs (passes query) = (rawPairs query).map fun p => (passes p.1, passes p.2) := by
  have hkept : (fun part : List Char => !part.contains ';' && part != []) ∘ passes = fun part => !part.contains ';' && part != [] := by
    funext part
    have hsemi : (passes part).contains ';' = part.contains ';' := by
      rw [Bool.eq_iff_iff, List.contains_iff_mem, List.contains_iff_mem, mem_passes_iff (by decide)]
    have hnil : (passes part != []) = (part != []) := by
      rw [Bool.eq_iff_iff, bne_iff_ne, bne_iff_ne, ne_eq, ne_eq, passes_eq_nil_iff]
    rw [Function.comp_apply, hsemi, hnil]
  rw [rawPairs, splitOn_passes (by decide), List.filter_map, hkept, List.map_map, rawPairs, List.map_map]
  apply List.map_congr_left
  intro part _
  exact cut_passes (by decide) part

/-! ## Matches after the replacements

The numbers are looked for wherever they stand, an e-mail address and a token just between edges of words: taking out a number can
make an edge, taking out an address or a secret makes none that was not there. -/

/-- What stands between the mobile numbers once the addresses are replaced, each without its long secrets. -/
def pieces (v : List Char) : List (List Char) :=
  (gaps incidentValueKoreanMobilePattern 0 none (replaceAll incidentValueEmailPattern (placeholder "redacted-email") v)).map
    redactIncidentLongSecret

theorem passes_eq_intercalate (v : List Char) : passes v = (placeholder "redacted-phone").intercalate (pieces v) :=
  replaceAll_intercalate (secret_marker phone_mem) (replaceAll_of_not_match _ (secret_marker phone_mem).word) (gaps_ne_nil _ 0 none)

theorem pieces_ne_nil (v : List Char) : pieces v ≠ [] := fun h => gaps_ne_nil _ 0 none (List.map_eq_nil_iff.1 h)

theorem email_passes_iff (v : List Char) : matchFrom incidentValueEmailPattern none (passes v) = false ↔
    ∀ piece ∈ pieces v, matchFrom incidentValueEmailPattern none piece = false := by
  rw [passes_eq_intercalate, placeholder, matchFrom_intercalate (email_marker phone_mem) (pieces_ne_nil v), List.any_eq_false]
  simp only [Bool.not_eq_true]

theorem jwt_passes_iff (v : List Char) : matchFrom incidentJWTLikePattern none (passes v) = false ↔
    ∀ piece ∈ pieces v, matchFrom incidentJWTLikePattern none piece = false := by
  rw [passes_eq_intercalate, placeholder, matchFrom_intercalate (jwt_marker phone_mem) (pieces_ne_nil v), List.any_eq_false]
  simp only [Bool.not_eq_true]

theorem mobile_passes (v : List Char) : matchFrom incidentValueKoreanMobilePattern none (passes v) = false :=
  not_matchFrom_replaceAll (mobile_marker secret_mem) (Or.inr (by decide))
    (matchFrom_replaceAll (mobile_marker phone_mem) (Or.inr (by decide)) (by decide) _)

theorem secret_passes (v : List Char) : matchFrom incidentValueLongSecretPattern none (passes v) = false :=
  matchFrom_replaceAll (secret_marker secret_mem) (Or.inl (by decide)) (by decide) _

/-! ## The markers of a secret -/

/-- The text holds `m`, up to case, and at its end or after it there is more than blanks: trimming keeps it. -/
def Shows (m v : List Char) : Prop := ∃ a t u, v = a ++ (t ++ u) ∧ t.map toLower = m ∧ ∃ d ∈ t.getLast?.toList ++ u, isSpace d = false

structure Plain (m : List Char) : Prop where
  head : ∀ c ∈ m.head?, isSpace c = false
  nonempty : m ≠ []
  bracket : '[' ∉ m ∧ ']' ∉ m

theorem contains_iff {s sub : List Char} : contains s sub = true ↔ sub <:+: s := by
  rw [contains, List.any_eq_true]
  constructor
  · rintro ⟨t, ht, hpre⟩
    exact (List.isPrefixOf_iff_prefix.1 hpre).isInfix.trans ((List.mem_tails _ _).1 ht).isInfix
  · rintro ⟨a, b, rfl⟩
    refine ⟨sub ++ b, (List.mem_tails _ _).2 ⟨a, (List.append_assoc a sub b).symm⟩, List.isPrefixOf_iff_prefix.2 (List.prefix_append sub b)⟩

theorem dropWhile_append_cons {p : Char → Bool} {x : Char} (hx : p x = false) (r : List Char) : ∀ l : List Char,
    ∃ l', (l ++ x :: r).dropWhile p = l' ++ x :: r
  | [] => ⟨[], List.dropWhile_cons_of_neg (by simp [hx])⟩
  | y :: l => by
    rw [List.cons_append, List.dropWhile_cons]
    split
    · exact dropWhile_append_cons hx r l
    · exact ⟨y :: l, rfl⟩

theorem rdropWhile_append_cons {p : Char → Bool} {x : Char} (hx : p x = false) (l r : List Char) :
    ∃ r', (l ++ x :: r).rdropWhile p = l ++ x :: r' := by
  obtain ⟨r', hr⟩ := dropWhile_append_cons hx l.reverse r.reverse
  refine ⟨r'.reverse, ?_⟩
  have hrev : (l ++ x :: r).reverse = r.reverse ++ x :: l.reverse := by simp
  rw [List.rdropWhile, hrev, hr]
  simp

variable {m : List Char}

/-- **The code's search** finds exactly the texts that are shown. -/
theorem shows_iff (hm : Plain m) (v : List Char) : contains ((trim v).map toLower) m = true ↔ Shows m v := by
  rw [contains_iff]
  constructor
  · rintro ⟨a', u', heq⟩
    obtain ⟨core, u, htrim, hcore, rfl⟩ := List.map_eq_append_iff.1 heq.symm
    obtain ⟨a, t, rfl, rfl, rfl⟩ := List.map_eq_append_iff.1 hcore
    have ht : t ≠ [] := fun h => hm.nonempty (by rw [h]; rfl)
    obtain ⟨lead, hlead⟩ : ∃ lead, v = lead ++ v.dropWhile isSpace := ⟨_, (List.takeWhile_append_dropWhile).symm⟩
    obtain ⟨trail, htrail⟩ : trim v <+: v.dropWhile isSpace := List.rdropWhile_prefix isSpace _
    have hlast : ∀ d ∈ (trim v).getLast?, isSpace d = false := by
      intro d hd
      have hne : trim v ≠ [] := fun h => by rw [h] at hd; cases hd
      have hnot := List.rdropWhile_last_not isSpace (v.dropWhile isSpace) hne
      rw [Option.mem_def, List.getLast?_eq_getLast_of_ne_nil hne, Option.some_inj] at hd
      rw [Bool.eq_false_iff, ← hd]
      exact hnot
    refine ⟨lead ++ a, t, u ++ trail, ?_, rfl, ?_⟩
    · calc v = lead ++ (trim v ++ trail) := by rw [htrail]; exact hlead
        _ = lead ++ a ++ (t ++ (u ++ trail)) := by rw [htrim]; simp
    · cases hu : u.getLast? with
      | some d =>
        refine ⟨d, List.mem_append_right _ (List.mem_append_left _ (List.mem_of_getLast? hu)), hlast d ?_⟩
        rw [htrim, Option.mem_def, List.getLast?_append, hu]
        rfl
      | none =>
        obtain rfl : u = [] := List.getLast?_eq_none_iff.1 hu
        obtain ⟨d, hd⟩ : ∃ d, t.getLast? = some d := ⟨_, List.getLast?_eq_getLast_of_ne_nil ht⟩
        refine ⟨d, List.mem_append_left _ (by rw [hd]; exact List.mem_singleton_self d), hlast d ?_⟩
        rw [htrim, Option.mem_def, List.append_nil, List.getLast?_append, hd]
        rfl
  · rintro ⟨a, t, u, rfl, rfl, d, hd, hspace⟩
    have ht : t ≠ [] := fun h => hm.nonempty (by rw [h]; rfl)
    obtain ⟨c, t', rfl⟩ := List.exists_cons_of_ne_nil ht
    have hc : isSpace c = false := by
      rw [← isSpace_toLower]
      exact hm.head _ rfl
    obtain ⟨a', ha⟩ := dropWhile_append_cons hc (t' ++ u) a
    have hdrop : (a ++ (c :: t' ++ u)).dropWhile isSpace = a' ++ (c :: t' ++ u) := ha
    have hkept : ∃ u', trim (a ++ (c :: t' ++ u)) = a' ++ (c :: t' ++ u') := by
      rw [trim, hdrop]
      rcases List.mem_append.1 hd with hd | hd
      · have hlast : (c :: t').getLast? = some d := by simpa using hd
        obtain ⟨front, hfront⟩ := List.getLast?_eq_some_iff.1 hlast
        obtain ⟨u', hu⟩ := rdropWhile_append_cons hspace (a' ++ front) u
        refine ⟨u', ?_⟩
        rw [hfront]
        simpa using hu
      · obtain ⟨u₁, u₂, rfl, _⟩ := List.eq_append_cons_of_mem hd
        obtain ⟨u', hu⟩ := rdropWhile_append_cons hspace (a' ++ (c :: t' ++ u₁)) u₂
        exact ⟨u₁ ++ d :: u', by simpa using hu⟩
    obtain ⟨u', hu⟩ := hkept
    rw [hu, List.map_append, List.map_append]
    exact ⟨a'.map toLower, u'.map toLower, by simp⟩

theorem append_eq_append_cons {c : Char} {t X u : List Char} (hc : c ∉ t) (ht : t ≠ []) : ∀ {a g : List Char},
    a ++ (t ++ u) = g ++ c :: X → (∃ e, g = a ++ (t ++ e)) ∨ ∃ e, a = g ++ c :: e ∧ X = e ++ (t ++ u)
  | [], g, h => by
    rw [List.nil_append] at h
    rcases List.append_eq_append_iff.1 h with ⟨e, he, _⟩ | ⟨e, he, hrest⟩
    · exact Or.inl ⟨e, he⟩
    · cases e with
      | nil => exact Or.inl ⟨[], by rw [List.append_nil, List.nil_append, he, List.append_nil]⟩
      | cons x e =>
        cases hrest
        exact absurd (he ▸ List.mem_append_right _ List.mem_cons_self) hc
  | d :: a, [], h => by
    cases h
    exact Or.inr ⟨a, rfl, rfl⟩
  | d :: a, d' :: g, h => by
    obtain ⟨hd, h⟩ := List.cons.inj h
    rcases append_eq_append_cons hc ht h with ⟨e, he⟩ | ⟨e, he, hX⟩
    · exact Or.inl ⟨e, by rw [hd, he]; rfl⟩
    · exact Or.inr ⟨e, by rw [hd, he]; rfl, hX⟩

theorem shows_interleave (hm : Plain m) {w : List Char} (hw : ¬m <:+: w.map toLower) : ∀ {gs ms : List (List Char)},
    ms.length + 1 = gs.length → (∀ x ∈ ms, ∃ d ∈ x, isSpace d = false) → Shows m ((marked '[' ']' w).intercalate gs) →
      Shows m (interleave gs ms)
  | [g], [], _, _, h => by simpa [interleave] using h
  | g :: g' :: gs, x :: ms, hlen, hms, h => by
    obtain ⟨a, t, u, htext, hmap, d, hd, hspace⟩ := h
    have ht : t ≠ [] := fun h => hm.nonempty (by rw [← hmap, h]; rfl)
    have hopen : '[' ∉ t := fun h => hm.bracket.1 (hmap ▸ List.mem_map.2 ⟨_, h, by decide⟩)
    have hclose : ']' ∉ t := fun h => hm.bracket.2 (hmap ▸ List.mem_map.2 ⟨_, h, by decide⟩)
    rw [List.intercalate_cons_cons, marked_append] at htext
    rcases append_eq_append_cons hopen ht htext.symm with ⟨e, hg⟩ | ⟨e, -, hrest⟩
    · obtain ⟨y, hy, hys⟩ := hms x List.mem_cons_self
      refine ⟨a, t, e ++ (x ++ interleave (g' :: gs) ms), by rw [interleave, hg]; simp, hmap, y, ?_, hys⟩
      exact List.mem_append_right _ (List.mem_append_right _ (List.mem_append_left _ hy))
    · rcases append_eq_append_cons hclose ht hrest.symm with ⟨e', hw'⟩ | ⟨e', -, hrest⟩
      · refine absurd ⟨e.map toLower, e'.map toLower, ?_⟩ hw
        rw [hw', ← hmap, List.map_append, List.map_append, List.append_assoc]
      · obtain ⟨a', t', u', htext', hmap', d', hd', hspace'⟩ := shows_interleave hm hw (Nat.succ.inj hlen)
          (fun x hx => hms x (List.mem_cons_of_mem _ hx)) ⟨e', t, u, hrest, hmap, d, hd, hspace⟩
        exact ⟨g ++ (x ++ a'), t', u', by rw [interleave, htext']; simp, hmap', d', hd', hspace'⟩

theorem shows_replaceAll (hm : Plain m) {r : Re} (hr : r.Requires (fun c => isSpace c = false)) {w : List Char}
    (hw : ¬m <:+: w.map toLower) {v : List Char} (h : Shows m (replaceAll r (marked '[' ']' w) v)) : Shows m v := by
  obtain ⟨ms, hlen, htext, hms⟩ := gaps_interleave (r := r) v 0 none (Nat.zero_le _)
  rw [List.take_zero, List.nil_append] at htext
  rw [htext]
  exact shows_interleave hm hw hlen (fun x hx => (hms x hx).exists_required hr) h

def allMarkers : List (List Char) := ("bearer " :: "-----begin " :: secretMarkers).map String.toList

theorem plain_markers (h : m ∈ allMarkers) : Plain m ∧ ∀ name ∈ names, ¬m <:+: name.toList.map toLower := by
  have hall : ∀ m ∈ allMarkers, m.head?.any isSpace = false ∧ m ≠ [] ∧ ('[' ∉ m ∧ ']' ∉ m) ∧
      ∀ name ∈ names, contains (name.toList.map toLower) m = false := by decide +kernel
  obtain ⟨hhead, hne, hbracket, hnames⟩ := hall m h
  refine ⟨⟨fun c hc => ?_, hne, hbracket⟩, fun name hname hin => ?_⟩
  · rw [Option.mem_def.1 hc] at hhead
    exact hhead
  rw [← contains_iff, hnames name hname] at hin
  cases hin

theorem isSpace_of_class {cs : List Char} (hcs : ∀ c ∈ cs, isSpace c = false) {c : Char} (h : (c.isAlphanum || c ∈ cs) = true) :
    isSpace c = false := by
  rw [Bool.or_eq_true, decide_eq_true_iff] at h
  exact h.elim isSpace_of_isAlphanum (hcs c)

theorem requires_nonspace : incidentValueEmailPattern.Requires (fun c => isSpace c = false) ∧
    incidentValueKoreanMobilePattern.Requires (fun c => isSpace c = false) ∧
    incidentValueLongSecretPattern.Requires (fun c => isSpace c = false) := by
  refine ⟨Or.inr (Or.inl (Or.inl fun c hc => isSpace_of_class (Listed.forall_mem (by decide)) hc)), Or.inr (Or.inr (Or.inl fun c hc => ?_)),
    Or.inr (Or.inl (Or.inl (Or.inl fun c hc => ?_)))⟩
  · rw [beq_iff_eq.1 hc]
    decide
  · apply @isSpace_of_class ['_', '-'] (Listed.forall_mem (by decide))
    simpa [or_assoc] using hc

/-- **The replacements show no marker.** -/
theorem shows_passes (h : m ∈ allMarkers) {v : List Char} (hs : Shows m (passes v)) : Shows m v := by
  obtain ⟨hm, hnames⟩ := plain_markers h
  obtain ⟨hemail, hmobile, hsecret⟩ := requires_nonspace
  exact shows_replaceAll hm hemail (hnames _ email_mem)
    (shows_replaceAll hm hmobile (hnames _ phone_mem) (shows_replaceAll hm hsecret (hnames _ secret_mem) hs))

theorem not_shows_of_not_secret (h : m ∈ allMarkers) {v : List Char} (hv : incidentValueLooksSecret v = false) : ¬Shows m v := by
  obtain ⟨hm, -⟩ := plain_markers h
  rw [← shows_iff hm]
  unfold incidentValueLooksSecret at hv
  dsimp only at hv
  split at hv
  · rename_i hnil
    rw [hnil, contains_iff, List.infix_nil]
    exact hm.nonempty
  · simp only [Bool.or_eq_false_iff, List.any_eq_false, Bool.not_eq_true] at hv
    obtain ⟨⟨⟨hbearer, hbegin⟩, _⟩, hmarkers⟩ := hv
    obtain ⟨name, hname, rfl⟩ := List.mem_map.1 h
    rcases List.mem_cons.1 hname with rfl | hname
    · rw [hbearer]
      decide
    · rcases List.mem_cons.1 hname with rfl | hname
      · rw [hbegin]
        decide
      · rw [hmarkers name hname]
        decide

/-! ## What leaves -/

structure TextClean (out : List Char) : Prop where
  email : matchFrom incidentValueEmailPattern none out = false
  mobile : matchFrom incidentValueKoreanMobilePattern none out = false
  jwt : matchFrom incidentJWTLikePattern none out = false
  secret : matchFrom incidentValueLongSecretPattern none out = false
  markers : ∀ m ∈ allMarkers, contains ((trim out).map toLower) m = false

structure Impersonal (text : List Char) : Prop where
  email : matchFrom incidentValueEmailPattern none text = false
  mobile : matchFrom incidentValueKoreanMobilePattern none text = false

section Claims
variable (letterOrDigit : Char → Bool)

/-- Of an http(s) URL, no key is sensitive and no key or value is personal once it is decoded. -/
def QueryClean (out : List Char) : Prop :=
  ∀ u, parse out = some u → isWeb u = true → ∀ pair ∈ parseQuery u.rawQuery,
    incidentURLKeyLooksSensitive letterOrDigit (runes pair.1) = false ∧ Impersonal (runes pair.1) ∧ Impersonal (runes pair.2)

structure Sound (out : List Char) : Prop where
  text : TextClean out
  query : QueryClean letterOrDigit out

/-- No piece between the mobile numbers is, by itself, more of an address or of a token than it was beside them. -/
def Apart (value : List Char) : Prop :=
  incidentValueLooksSecret (rewritten letterOrDigit value) = false → ∀ piece ∈ pieces (rewritten letterOrDigit value),
    matchFrom incidentValueEmailPattern none piece = false ∧ matchFrom incidentJWTLikePattern none piece = false

def startsWeb (v : List Char) : Bool :=
  v.contains ':' && ((cut ':' v).1.map Char.toLower == "http".toList || (cut ':' v).1.map Char.toLower == "https".toList)

def escaped (part : List Char) : Bool := part.contains '%' || part.contains '+'

/-- In a text that starts as an http(s) URL, no part of the query hides by its escapes what it is decoded to. -/
def Unhidden (value : List Char) : Prop :=
  incidentValueLooksSecret (rewritten letterOrDigit value) = false → startsWeb (rewritten letterOrDigit value) = true →
    ∀ part ∈ rawPairs (queryText (rewritten letterOrDigit value)), ∀ key val,
      unescape .queryComponent (passes part.1) = some key → unescape .queryComponent (passes part.2) = some val →
        incidentURLKeyLooksSensitive letterOrDigit (runes key) = false ∧ (escaped part.1 = true → Impersonal (runes key)) ∧
          (escaped part.2 = true → Impersonal (runes val))

variable {letterOrDigit}

theorem sanitize_eq (value : List Char) : SanitizeIncidentValue letterOrDigit value =
    if incidentValueLooksSecret (rewritten letterOrDigit value) then marked '[' ']' "redacted".toList
    else passes (rewritten letterOrDigit value) := by
  rw [SanitizeIncidentValue, sanitizeIncidentValue]
  by_cases h : trim value = []
  · have hnone : sanitizeIncidentURL letterOrDigit [] = none := rfl
    have hrewritten : rewritten letterOrDigit value = [] := by rw [rewritten, h, hnone, Option.getD_none]
    rw [if_pos h, hrewritten, if_neg (by decide), passes_nil]
  · rw [if_neg h]
    dsimp only
    split <;> rfl

theorem textClean_redacted : TextClean (marked '[' ']' "redacted".toList) :=
  ⟨by decide +kernel, by decide +kernel, by decide +kernel, by decide +kernel, by decide +kernel⟩

/-- **The text is clean** exactly when the pieces between the numbers are. -/
theorem textClean_iff (value : List Char) : TextClean (SanitizeIncidentValue letterOrDigit value) ↔ Apart letterOrDigit value := by
  rw [sanitize_eq]
  by_cases hsecret : incidentValueLooksSecret (rewritten letterOrDigit value) = true
  · rw [if_pos hsecret]
    refine iff_of_true textClean_redacted fun h => ?_
    rw [hsecret] at h
    cases h
  · rw [if_neg hsecret]
    rw [Bool.not_eq_true] at hsecret
    constructor
    · intro h _ piece hpiece
      exact ⟨(email_passes_iff _).1 h.email piece hpiece, (jwt_passes_iff _).1 h.jwt piece hpiece⟩
    · intro h
      have hpieces := h hsecret
      refine ⟨(email_passes_iff _).2 fun x hx => (hpieces x hx).1, mobile_passes _, (jwt_passes_iff _).2 fun x hx => (hpieces x hx).2,
        secret_passes _, fun m hm => ?_⟩
      rw [← Bool.not_eq_true, shows_iff (plain_markers hm).1]
      exact fun hshows => not_shows_of_not_secret hm hsecret (shows_passes hm hshows)

theorem matchFrom_cut {r : Re} (hr : r.anchored = false) (hmin : 0 < r.minLen) {c : Char} (hc : r.fence c = true) {v : List Char}
    (h : matchFrom r none v = false) : matchFrom r none (cut c v).1 = false ∧ matchFrom r none (cut c v).2 = false := by
  by_cases hmem : c ∈ v
  · obtain ⟨a, b, rfl, ha⟩ := List.eq_append_cons_of_mem hmem
    rw [matchFrom_fence hr hc, Bool.or_eq_false_iff] at h
    rw [cut_append ha]
    exact h
  · rw [cut_of_not_mem hmem]
    exact ⟨h, matchFrom_nil hmin none⟩

theorem matchFrom_rawPairs {r : Re} (hr : r.anchored = false) (hmin : 0 < r.minLen) (hc : ∀ c ∈ separators, r.fence c = true)
    {v : List Char} (h : matchFrom r none v = false) : ∀ part ∈ rawPairs (queryText v),
      matchFrom r none part.1 = false ∧ matchFrom r none part.2 = false := by
  intro part hpart
  obtain ⟨text, htext, rfl⟩ := List.mem_map.1 hpart
  have hquery : matchFrom r none (queryText v) = false :=
    (matchFrom_cut hr hmin (hc _ (by decide)) (matchFrom_cut hr hmin (hc _ (by decide)) h).1).2
  have hjoin : List.intercalate ['&'] ((queryText v).splitOn '&') = queryText v := List.intercalate_splitOn '&'
  rw [← hjoin, matchFrom_separated hr (hc _ (by decide)) (List.splitOn_ne_nil _ _),
    List.any_eq_false] at hquery
  exact matchFrom_cut hr hmin (hc _ (by decide)) (Bool.not_eq_true _ ▸ hquery text (List.mem_filter.1 htext).1)

theorem escaped_eq_false_iff {part : List Char} : escaped part = false ↔ '%' ∉ part ∧ '+' ∉ part := by
  simp [escaped]

theorem unescape_unescaped : ∀ {part : List Char}, escaped part = false → unescape .queryComponent part = some (utf8 part)
  | [], _ => rfl
  | c :: s, h => by
    obtain ⟨hpercent, hplus⟩ := escaped_eq_false_iff.1 h
    rw [List.mem_cons, not_or] at hpercent hplus
    have hs : unescape .queryComponent s = some (utf8 s) := unescape_unescaped (escaped_eq_false_iff.2 ⟨hpercent.2, hplus.2⟩)
    rw [unescape]
    · rw [hs]
      rfl
    · rintro a b t rfl
      exact absurd rfl hpercent.1
    · rintro rfl
      exact absurd rfl hpercent.1
    · rintro rfl
      exact absurd rfl hplus.1

theorem escaped_passes {part : List Char} (h : escaped part = false) : escaped (passes part) = false := by
  have hnot : ∀ c ∈ ['%', '+'], c ∉ part → c ∉ passes part := by
    intro c hc hpart hm
    rcases mem_passes hm with hm | ⟨name, hname, hm⟩
    · exact hpart hm
    · exact not_mem_placeholder (List.mem_append_left separators hc) name hname hm
  rw [escaped_eq_false_iff] at h ⊢
  exact ⟨hnot _ (by decide) h.1, hnot _ (by decide) h.2⟩

theorem passes_eq_of_not_mem {v : List Char} (h : '[' ∉ passes v) : passes v = v := by
  have hopen : ∀ name, '[' ∈ placeholder name := fun name => List.mem_cons_self
  have hsecret := replaceAll_eq_of_not_mem (by decide) (hopen _) h
  rw [passes, redactIncidentLongSecret, hsecret] at h ⊢
  have hmobile := replaceAll_eq_of_not_mem (by decide) (hopen _) h
  rw [redactIncidentPII, hmobile] at h ⊢
  exact replaceAll_eq_of_not_mem (by decide) (hopen _) h

theorem startsWeb_of_parse {v : List Char} {u : URL} (h : parse (passes v) = some u) (hweb : isWeb u = true) : startsWeb v = true := by
  have hne : u.scheme ≠ [] := fun hnil => by
    rw [isWeb, hnil] at hweb
    exact absurd hweb (by decide)
  obtain ⟨name, rest, htext, hscheme, hname⟩ := scheme_of_parse h hne
  have hcolon : ':' ∉ name := fun hm => (isSchemeChar_ne (hname _ hm)).2.2.1 rfl
  have hopen : '[' ∉ name := fun hm => (isSchemeChar_ne (hname _ hm)).2.2.2 rfl
  have hcut : passes (cut ':' v).1 = name := by
    have hboth := cut_passes (c := ':') (by decide) v
    rw [htext, cut_append hcolon] at hboth
    exact (congrArg Prod.fst hboth).symm
  have hsame : (cut ':' v).1 = name := by rw [← hcut, passes_eq_of_not_mem (hcut ▸ hopen)]
  have hmem : ':' ∈ v := (mem_passes_iff (by decide)).1 (htext ▸ List.mem_append_right _ List.mem_cons_self)
  rw [startsWeb, Bool.and_eq_true, List.contains_iff_mem, hsame, ← hscheme]
  exact ⟨hmem, hweb⟩

theorem impersonal_of_plain {part : List Char} {text : Bytes} (hemail : matchFrom incidentValueEmailPattern none (passes part) = false)
    (hmobile : matchFrom incidentValueKoreanMobilePattern none (passes part) = false)
    (htext : unescape .queryComponent (passes part) = some text) (h : escaped part = true → Impersonal (runes text)) :
    Impersonal (runes text) := by
  by_cases hpart : escaped part = true
  · exact h hpart
  · rw [unescape_unescaped (escaped_passes (Bool.not_eq_true _ ▸ hpart)), Option.some_inj] at htext
    rw [← htext, runes_utf8]
    exact ⟨hemail, hmobile⟩

theorem queryClean_redacted : QueryClean letterOrDigit (marked '[' ']' "redacted".toList) := by
  intro u h hweb
  have hne : u.scheme ≠ [] := fun hnil => by
    rw [isWeb, hnil] at hweb
    exact absurd hweb (by decide)
  obtain ⟨name, rest, htext, _⟩ := scheme_of_parse h hne
  have hcolon : ':' ∈ marked '[' ']' "redacted".toList := htext ▸ List.mem_append_right _ List.mem_cons_self
  exact absurd hcolon (by decide)

/-- **The query is clean** when, beside the text, no part of it hides anything. -/
theorem queryClean_of_unhidden {value : List Char} (htext : TextClean (SanitizeIncidentValue letterOrDigit value))
    (hquery : Unhidden letterOrDigit value) : QueryClean letterOrDigit (SanitizeIncidentValue letterOrDigit value) := by
  rw [sanitize_eq] at htext ⊢
  by_cases hsecret : incidentValueLooksSecret (rewritten letterOrDigit value) = true
  · rw [if_pos hsecret]
    exact queryClean_redacted
  · rw [if_neg hsecret] at htext ⊢
    intro u hparse hweb pair hpair
    have hparts := hquery (Bool.not_eq_true _ ▸ hsecret) (startsWeb_of_parse hparse hweb)
    rw [rawQuery_of_parse hparse, parseQuery] at hpair
    split at hpair
    · cases hpair
    · obtain ⟨part', hpart', hdecode⟩ := List.mem_filterMap.1 hpair
      obtain ⟨key, hkey, hdecode⟩ := Option.bind_eq_some_iff.1 hdecode
      obtain ⟨val, hval, rfl⟩ := Option.map_eq_some_iff.1 hdecode
      have hemail := matchFrom_rawPairs (email_marker email_mem).anchored (by decide) (fun c hc => (fence_separators hc).1) htext.email
      have hmobile := matchFrom_rawPairs (mobile_marker phone_mem).anchored (by decide) (fun c hc => (fence_separators hc).2.1)
        htext.mobile
      have hboth := hemail part' hpart'
      have hboth' := hmobile part' hpart'
      rw [queryText_passes, rawPairs_passes] at hpart'
      obtain ⟨part, hpart, rfl⟩ := List.mem_map.1 hpart'
      obtain ⟨hsensitive, himpersonal, himpersonal'⟩ := hparts part hpart key val hkey hval
      exact ⟨hsensitive, impersonal_of_plain hboth.1 hboth'.1 hkey himpersonal,
        impersonal_of_plain hboth.2 hboth'.2 hval himpersonal'⟩

variable (letterOrDigit)

end Claims

end Redaction
end DsApm
