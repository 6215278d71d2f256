import Mathlib.Data.List.Basic
/-!
# Paging — a list read page by page from where the last page ended

A page is the first elements of what is left, up to the limit; what is left after a full page is what lies beyond its last
element.  Elements that do not lie beyond it are lost, so the pages are the whole list exactly where each page's last
element and the next one are apart.
-/
namespace Paging

open List

variable {α : Type*} (beyond : α → α → Bool) (limit offset : Nat)

def walk (rows : List α) : List α :=
  let page := (rows.drop offset).take limit
  if h : page ≠ [] ∧ page.length = limit then
    page ++ walk ((rows.drop (offset + limit)).filter (beyond (page.getLast h.1)))
  else page
termination_by rows.length
decreasing_by
  have hpos : 0 < ((rows.drop offset).take limit).length := List.length_pos_iff.2 h.1
  have hle := List.length_filter_le (beyond (((rows.drop offset).take limit).getLast h.1)) (rows.drop (offset + limit))
  rw [List.length_take, List.length_drop] at hpos
  rw [List.length_drop] at hle
  omega

def Apart (rows : List α) : Prop :=
  ∀ k a b, rows[(k + 1) * limit - 1]? = some a → rows[(k + 1) * limit]? = some b → beyond a b = true

variable {beyond limit offset}

theorem walk_short {rows : List α} (h : ((rows.drop offset).take limit).length < limit) :
    walk beyond limit offset rows = rows.drop offset := by
  have hlen := h
  rw [length_take] at hlen
  rw [walk, dif_neg (fun hc => absurd hc.2 (Nat.ne_of_lt h)), take_of_length_le (by omega)]

theorem walk_full {rows page post : List α} {last : α} (hpage : rows.drop offset = page ++ last :: post)
    (hlen : (page ++ [last]).length = limit) :
    walk beyond limit offset rows = (page ++ [last]) ++ walk beyond limit offset (post.filter (beyond last)) := by
  have htake : (rows.drop offset).take limit = page ++ [last] := by
    rw [hpage, ← hlen, append_cons page last post, take_left]
  have hdrop : rows.drop (offset + limit) = post := by
    rw [← drop_drop, hpage, ← hlen, append_cons page last post, drop_left]
  rw [walk]
  simp only [htake, hdrop]
  rw [dif_pos ⟨by simp, hlen⟩]
  simp

theorem page_cases (hpos : 0 < limit) (rows : List α) : rows.length < limit ∨
    ∃ page last post, rows = page ++ last :: post ∧ (page ++ [last]).length = limit := by
  rcases Nat.lt_or_ge rows.length limit with hlt | hge
  · exact .inl hlt
  · have hlast : limit - 1 < rows.length := by omega
    refine .inr ⟨rows.take (limit - 1), rows[limit - 1], rows.drop limit, ?_, ?_⟩
    · have hsucc : rows.drop limit = rows.drop (limit - 1 + 1) := by
        congr 1
        omega
      rw [hsucc, ← drop_eq_getElem_cons hlast, take_append_drop]
    · rw [List.length_append, length_take, List.length_singleton]
      omega

/-- **Nothing is repeated or moved**, whatever lies beyond what. -/
theorem walk_sublist (hpos : 0 < limit) (rows : List α) : (walk beyond limit offset rows).Sublist (rows.drop offset) := by
  rcases page_cases hpos (rows.drop offset) with hlt | ⟨page, last, post, hpage, hlen⟩
  · rw [walk_short (by rw [length_take]; omega)]
  · have hdec : (post.filter (beyond last)).length < rows.length := by
      have hle := length_filter_le (beyond last) post
      have hrows := congrArg List.length hpage
      simp only [length_drop, List.length_append, length_cons] at hrows
      omega
    rw [walk_full hpage hlen, hpage, append_cons page last post]
    have hrest := walk_sublist hpos (post.filter (beyond last))
    exact (List.Sublist.refl _).append (hrest.trans ((drop_sublist _ _).trans filter_sublist))
termination_by rows.length

theorem filter_eq_self_iff {last : α} : ∀ {post : List α}, post.Pairwise (fun a b => beyond last a = true → beyond last b = true) →
    (post.filter (beyond last) = post ↔ ∀ b, post.head? = some b → beyond last b = true)
  | [], _ => by simp
  | b :: post, hup => by
    rw [filter_eq_self, List.head?_cons]
    constructor
    · intro h c hc
      cases hc
      exact h b mem_cons_self
    · intro h c hc
      rcases mem_cons.1 hc with rfl | hc
      · exact h c rfl
      · exact (pairwise_cons.1 hup).1 c hc (h b rfl)

theorem filter_suffix {last : α} : ∀ {post : List α}, post.Pairwise (fun a b => beyond last a = true → beyond last b = true) →
    post.filter (beyond last) <:+ post
  | [], _ => suffix_rfl
  | b :: post, hup => by
    by_cases hb : beyond last b = true
    · exact ⟨[], (filter_eq_self_iff hup).2 (fun c hc => by cases hc; exact hb)⟩
    · rw [filter_cons_of_neg hb]
      exact (filter_suffix (pairwise_cons.1 hup).2).trans (suffix_cons b post)

theorem apart_short {rows : List α} (h : rows.length < limit) : Apart beyond limit rows := by
  intro k a b _ hb
  have hlt := (List.getElem?_eq_some_iff.1 hb).1
  have hle : limit ≤ (k + 1) * limit := Nat.le_mul_of_pos_left _ (Nat.succ_pos k)
  omega

theorem apart_full {page post : List α} {last : α} (hlen : (page ++ [last]).length = limit) :
    Apart beyond limit (page ++ last :: post) ↔
      (∀ b, post.head? = some b → beyond last b = true) ∧ Apart beyond limit post := by
  rw [append_cons page last post]
  have hlimit : limit = page.length + 1 := by rw [← hlen, List.length_append, List.length_singleton]
  have hlast : ((page ++ [last]) ++ post)[limit - 1]? = some last := by
    rw [List.getElem?_append_left (by omega), List.getElem?_append_right (by omega)]
    simp [hlimit]
  have hpost : ∀ i, ((page ++ [last]) ++ post)[limit + i]? = post[i]? := by
    intro i
    rw [List.getElem?_append_right (by omega), hlen, Nat.add_sub_cancel_left]
  have hnext : ∀ k, (k + 1 + 1) * limit = limit + (k + 1) * limit := fun k => by rw [Nat.add_mul (k + 1), Nat.one_mul, Nat.add_comm]
  constructor
  · intro h
    refine ⟨fun b hb => h 0 last b (by rwa [Nat.zero_add, Nat.one_mul]) ?_, fun k a b ha hb => h (k + 1) a b ?_ ?_⟩
    · rw [Nat.zero_add, Nat.one_mul]
      exact (hpost 0).trans (List.head?_eq_getElem? ▸ hb)
    · have hk : 0 < (k + 1) * limit := Nat.mul_pos (Nat.succ_pos k) (by omega)
      rw [hnext, Nat.add_sub_assoc hk, hpost]
      exact ha
    · rw [hnext, hpost]
      exact hb
  · rintro ⟨hhead, happart⟩ k a b ha hb
    cases k with
    | zero =>
      rw [Nat.zero_add, Nat.one_mul] at ha hb
      rw [hlast] at ha
      cases ha
      refine hhead b ?_
      rw [List.head?_eq_getElem?]
      exact (hpost 0).symm.trans hb
    | succ k =>
      have hk : 0 < (k + 1) * limit := Nat.mul_pos (Nat.succ_pos k) (by omega)
      rw [hnext, Nat.add_sub_assoc hk, hpost] at ha
      rw [hnext, hpost] at hb
      exact happart k a b ha hb

/-- **The pages are the whole list exactly where their ends are apart.** -/
theorem walk_eq_iff (hpos : 0 < limit) {rows : List α}
    (hup : rows.Pairwise (fun a b => ∀ last, beyond last a = true → beyond last b = true)) :
    walk beyond limit 0 rows = rows ↔ Apart beyond limit rows := by
  rcases page_cases hpos rows with hlt | ⟨page, last, post, hpage, hlen⟩
  · have hshort : ((rows.drop 0).take limit).length < limit := by
      rw [drop_zero, length_take]
      omega
    exact iff_of_true (walk_short hshort) (apart_short hlt)
  · have hdec : post.length < rows.length := by
      rw [hpage, List.length_append, length_cons]
      omega
    have hpost : post.Pairwise (fun a b => ∀ last, beyond last a = true → beyond last b = true) := by
      rw [hpage, pairwise_append, pairwise_cons] at hup
      exact hup.2.1.2
    have hfull : walk beyond limit 0 rows = (page ++ [last]) ++ walk beyond limit 0 (post.filter (beyond last)) :=
      walk_full (by rw [drop_zero, hpage]) hlen
    have hkept := filter_eq_self_iff (hpost.imp (fun h => h last))
    rw [hfull, hpage, apart_full hlen, append_cons page last post, append_cancel_left_eq]
    by_cases hhead : ∀ b, post.head? = some b → beyond last b = true
    · rw [hkept.2 hhead, walk_eq_iff hpos hpost]
      exact ⟨fun h => ⟨hhead, h⟩, fun h => h.2⟩
    · -- what is lost is not found again
      refine iff_of_false (fun heq => hhead (hkept.1 ?_)) (fun h => hhead h.1)
      have hsub : (walk beyond limit 0 (post.filter (beyond last))).Sublist (post.filter (beyond last)) :=
        walk_sublist hpos _
      rw [heq] at hsub
      exact filter_sublist.antisymm hsub
termination_by rows.length

end Paging
