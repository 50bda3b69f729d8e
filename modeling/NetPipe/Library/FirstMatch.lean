import Mathlib

/-!
# First matches

Messages arrive in an order and receives are posted in an order. A message that arrives goes to the
first waiting receive that accepts it, a receive that is posted takes the first waiting message that
it accepts. However arrivals and posts are interleaved, the outcome is the same.
-/

namespace NetPipe

section SplitFirst

variable {α : Type*} {p : α → Bool} {l l₁ l₂ : List α} {a : α}

/-- The first element that `p` accepts, between what is before it and what is after it. -/
def splitFirst (p : α → Bool) : List α → Option (List α × α × List α)
  | [] => none
  | a :: l => if p a then some ([], a, l) else (splitFirst p l).map fun r => (a :: r.1, r.2)

lemma splitFirst_eq_none : splitFirst p l = none ↔ ∀ x ∈ l, p x = false := by
  induction l with
  | nil => simp [splitFirst]
  | cons a l ih =>
    by_cases ha : p a
    · simp [splitFirst, ha]
    · simp [splitFirst, ha, ih]

lemma splitFirst_eq_some : splitFirst p l = some (l₁, a, l₂) ↔
    l = l₁ ++ a :: l₂ ∧ (∀ x ∈ l₁, p x = false) ∧ p a = true := by
  induction l generalizing l₁ with
  | nil => simp [splitFirst]
  | cons b l ih =>
    by_cases hb : p b
    · simp only [splitFirst, hb, ↓reduceIte, Option.some.injEq, Prod.mk.injEq]
      constructor
      · rintro ⟨rfl, rfl, rfl⟩
        exact ⟨rfl, by simp, hb⟩
      · rintro ⟨hl, hl₁, -⟩
        cases l₁ with
        | nil =>
          cases hl
          exact ⟨rfl, rfl, rfl⟩
        | cons c l₁ =>
          cases hl
          simp [hb] at hl₁
    · have heq : splitFirst p (b :: l) = (splitFirst p l).map fun r => (b :: r.1, r.2) :=
        if_neg hb
      rw [heq, Option.map_eq_some_iff]
      constructor
      · rintro ⟨⟨t, r⟩, h, heq⟩
        cases heq
        obtain ⟨rfl, hl₁, ha⟩ := ih.1 h
        exact ⟨rfl, by simpa [hb] using hl₁, ha⟩
      · rintro ⟨hl, hl₁, ha⟩
        cases l₁ with
        | nil =>
          cases hl
          exact absurd ha hb
        | cons c l₁ =>
          cases hl
          exact ⟨(l₁, a, l₂), ih.2 ⟨rfl, fun x hx => hl₁ x (by simp [hx]), ha⟩, rfl⟩

lemma exists_splitFirst (ha : a ∈ l) (hp : p a = true) :
    ∃ l₁ b l₂, splitFirst p l = some (l₁, b, l₂) := by
  cases h : splitFirst p l with
  | none => simp [splitFirst_eq_none.1 h a ha] at hp
  | some r => exact ⟨r.1, r.2.1, r.2.2, rfl⟩

end SplitFirst

/-! ### Queues in the order of a number -/

section Keys

variable {α : Type*} {f : α → ℕ} {l l₁ l₂ : List α} {a b x y : α} {P : α → Prop}

lemma eq_of_key_eq (hs : (l.map f).Pairwise (· < ·)) (hx : x ∈ l) (hy : y ∈ l) (hxy : f x = f y) :
    x = y :=
  List.inj_on_of_nodup_map (hs.imp fun hlt => hlt.ne) hx hy hxy

/-- The other elements. -/
lemma mem_of_mem_remove (hs : (l.map f).Pairwise (· < ·)) (hl : l = l₁ ++ a :: l₂)
    (hx : x ∈ l₁ ++ l₂) : x ∈ l ∧ f x ≠ f a := by
  subst hl
  simp only [List.map_append, List.map_cons, List.pairwise_append, List.pairwise_cons,
    List.mem_cons, List.mem_map, forall_eq_or_imp, forall_exists_index, and_imp,
    forall_apply_eq_imp_iff₂] at hs
  rcases List.mem_append.1 hx with hx | hx
  · exact ⟨by simp [hx], (hs.2.2 x hx).1.ne⟩
  · exact ⟨by simp [hx], (hs.2.1.1 x hx).ne'⟩

/-- What holds of the elements after one of them has been replaced. -/
lemma forall_mem_replace (hs : (l.map f).Pairwise (· < ·)) (hl : l = l₁ ++ a :: l₂) (hb : P b)
    (hP : ∀ x ∈ l, f x ≠ f a → P x) : ∀ x ∈ l₁ ++ b :: l₂, P x := by
  intro x hx
  by_cases hxb : x = b
  · exact hxb ▸ hb
  · obtain ⟨hx, hne⟩ := mem_of_mem_remove hs hl (x := x) (by simpa [hxb] using hx)
    exact hP x hx hne

/-- The elements with a smaller number stand before. -/
lemma mem_left_of_key_lt (hs : (l.map f).Pairwise (· < ·)) (hl : l = l₁ ++ a :: l₂) (hx : x ∈ l)
    (hlt : f x < f a) : x ∈ l₁ := by
  subst hl
  simp only [List.map_append, List.map_cons, List.pairwise_append, List.pairwise_cons,
    List.mem_cons, List.mem_map, forall_eq_or_imp, forall_exists_index, and_imp,
    forall_apply_eq_imp_iff₂] at hs
  rcases List.mem_append.1 hx with hx | hx
  · exact hx
  · rcases List.mem_cons.1 hx with rfl | hx
    · exact absurd hlt (lt_irrefl _)
    · exact absurd (hs.2.1.1 x hx) hlt.not_gt

end Keys

lemma getElem?_of_initial {α : Type*} {l l' : List α} {i : ℕ} {a : α} (h : l <+: l')
    (ha : l[i]? = some a) : l'[i]? = some a := by
  obtain ⟨t, rfl⟩ := h
  rw [List.getElem?_append_left (List.getElem?_eq_some_iff.1 ha).1, ha]

/-- Two prefixes of one list agree as far as both go. -/
lemma take_eq_take_of_initial {α : Type*} {l l' m : List α} (h : l <+: m) (h' : l' <+: m) :
    l.take l'.length = l'.take l.length := by
  rcases List.prefix_or_prefix_of_prefix h h' with ⟨t, rfl⟩ | ⟨t, rfl⟩ <;> simp

variable {α β : Type*} {acc : β → α → Prop} {sent : List α} {asked : List β}
  {M M' : List (ℕ × ℕ)} {i i' k k' : ℕ} {m : α} {r : β}

/-- The pairs `M` of a message and a receive, by their positions: each receive accepts its message,
and if a receive accepts a message, then the message has gone to a receive that is not later, or the
receive has taken a message that is not later. -/
structure FirstMatch (acc : β → α → Prop) (sent : List α) (asked : List β)
    (M : List (ℕ × ℕ)) : Prop where
  left_inj : ∀ {i k k'}, (i, k) ∈ M → (i, k') ∈ M → k = k'
  right_inj : ∀ {i i' k}, (i, k) ∈ M → (i', k) ∈ M → i = i'
  accepted : ∀ {i k}, (i, k) ∈ M → ∃ m r, sent[i]? = some m ∧ asked[k]? = some r ∧ acc r m
  first : ∀ {i k m r}, sent[i]? = some m → asked[k]? = some r → acc r m →
    (∃ k' ≤ k, (i, k') ∈ M) ∨ ∃ i' ≤ i, (i', k) ∈ M

namespace FirstMatch

lemma nil : FirstMatch acc [] [] [] where
  left_inj h := by simp at h
  right_inj h := by simp at h
  accepted h := by simp at h
  first h := by simp at h

/-- Messages and receives have the same role. -/
lemma swap (h : FirstMatch acc sent asked M) :
    FirstMatch (flip acc) asked sent (M.map Prod.swap) where
  left_inj h₁ h₂ := h.right_inj (by simpa using h₁) (by simpa using h₂)
  right_inj h₁ h₂ := h.left_inj (by simpa using h₁) (by simpa using h₂)
  accepted h₁ := by
    obtain ⟨m, r, hm, hr, hacc⟩ := h.accepted (by simpa using h₁)
    exact ⟨r, m, hr, hm, hacc⟩
  first hr hm hacc := by simpa using (h.first hm hr hacc).symm

lemma lt_left (h : FirstMatch acc sent asked M) (hik : (i, k) ∈ M) : i < sent.length := by
  obtain ⟨m, r, hm, -, -⟩ := h.accepted hik
  exact (List.getElem?_eq_some_iff.1 hm).1

lemma lt_right (h : FirstMatch acc sent asked M) (hik : (i, k) ∈ M) : k < asked.length := by
  obtain ⟨m, r, -, hr, -⟩ := h.accepted hik
  exact (List.getElem?_eq_some_iff.1 hr).1

/-- A message that no waiting receive accepts waits. -/
lemma arrive_wait (h : FirstMatch acc sent asked M)
    (hwait : ∀ k r, asked[k]? = some r → acc r m → ∃ i, (i, k) ∈ M) :
    FirstMatch acc (sent ++ [m]) asked M where
  left_inj := h.left_inj
  right_inj := h.right_inj
  accepted hik := by
    obtain ⟨m, r, hm, hr, hacc⟩ := h.accepted hik
    exact ⟨m, r, by rw [List.getElem?_append_left (h.lt_left hik), hm], hr, hacc⟩
  first {i k m' r} hm hr hacc := by
    rcases lt_or_ge i sent.length with hi | hi
    · rw [List.getElem?_append_left hi] at hm
      exact h.first hm hr hacc
    · obtain rfl : m = m' := by
        rw [List.getElem?_append_right hi] at hm
        exact (List.mem_singleton.1 (List.mem_of_getElem? hm)).symm
      obtain ⟨i', hi'⟩ := hwait k r hr hacc
      exact .inr ⟨i', by have := h.lt_left hi'; omega, hi'⟩

/-- A message goes to the first waiting receive that accepts it. -/
lemma arrive_match (h : FirstMatch acc sent asked M) (hr : asked[k]? = some r) (hacc : acc r m)
    (hfree : ∀ i, (i, k) ∉ M)
    (hwait : ∀ k' < k, ∀ r, asked[k']? = some r → acc r m → ∃ i, (i, k') ∈ M) :
    FirstMatch acc (sent ++ [m]) asked (M ++ [(sent.length, k)]) where
  left_inj {i k₁ k₂} h₁ h₂ := by
    simp only [List.mem_append, List.mem_singleton, Prod.mk.injEq] at h₁ h₂
    rcases h₁ with h₁ | ⟨rfl, rfl⟩ <;> rcases h₂ with h₂ | ⟨h₂, rfl⟩
    · exact h.left_inj h₁ h₂
    · exact absurd (h.lt_left h₁) (by omega)
    · exact absurd (h.lt_left h₂) (by omega)
    · rfl
  right_inj {i₁ i₂ k'} h₁ h₂ := by
    simp only [List.mem_append, List.mem_singleton, Prod.mk.injEq] at h₁ h₂
    rcases h₁ with h₁ | ⟨rfl, rfl⟩ <;> rcases h₂ with h₂ | ⟨rfl, h₂⟩
    · exact h.right_inj h₁ h₂
    · exact absurd (h₂ ▸ h₁) (hfree i₁)
    · exact absurd h₂ (hfree i₂)
    · rfl
  accepted {i k'} hik := by
    simp only [List.mem_append, List.mem_singleton, Prod.mk.injEq] at hik
    rcases hik with hik | ⟨rfl, rfl⟩
    · obtain ⟨m, r, hm, hr, hacc⟩ := h.accepted hik
      exact ⟨m, r, by rw [List.getElem?_append_left (h.lt_left hik), hm], hr, hacc⟩
    · exact ⟨m, r, by simp, hr, hacc⟩
  first {i k' m' r'} hm hr' hacc' := by
    simp only [List.mem_append, List.mem_singleton, Prod.mk.injEq]
    rcases lt_or_ge i sent.length with hi | hi
    · rw [List.getElem?_append_left hi] at hm
      rcases h.first hm hr' hacc' with ⟨k'', hle, hmem⟩ | ⟨i', hle, hmem⟩
      · exact .inl ⟨k'', hle, .inl hmem⟩
      · exact .inr ⟨i', hle, .inl hmem⟩
    · have hlt := (List.getElem?_eq_some_iff.1 hm).1
      obtain rfl : i = sent.length := by simp at hlt; omega
      obtain rfl : m = m' := by simpa using hm
      rcases lt_or_ge k' k with hk | hk
      · obtain ⟨i', hi'⟩ := hwait k' hk r' hr' hacc'
        exact .inr ⟨i', (h.lt_left hi').le, .inl hi'⟩
      · exact .inl ⟨k, hk, .inr ⟨rfl, rfl⟩⟩

/-- A receive that accepts no waiting message waits. -/
lemma post_wait (h : FirstMatch acc sent asked M)
    (hwait : ∀ i m, sent[i]? = some m → acc r m → ∃ k, (i, k) ∈ M) :
    FirstMatch acc sent (asked ++ [r]) M := by
  have := (h.swap.arrive_wait (m := r) fun i m hm hacc => by simpa using hwait i m hm hacc).swap
  simpa using this

/-- A receive takes the first waiting message that it accepts. -/
lemma post_match (h : FirstMatch acc sent asked M) (hm : sent[i]? = some m) (hacc : acc r m)
    (hfree : ∀ k, (i, k) ∉ M)
    (hwait : ∀ i' < i, ∀ m, sent[i']? = some m → acc r m → ∃ k, (i', k) ∈ M) :
    FirstMatch acc sent (asked ++ [r]) (M ++ [(i, asked.length)]) := by
  have := (h.swap.arrive_match hm hacc (fun k => by simpa using hfree k)
    fun i' hi m hm hacc => by simpa using hwait i' hi m hm hacc).swap
  simpa using this

/-- The messages and the receives determine the pairs. -/
theorem mem_of_mem (h : FirstMatch acc sent asked M) (h' : FirstMatch acc sent asked M')
    (hik : (i, k) ∈ M) : (i, k) ∈ M' := by
  induction hn : i + k using Nat.strong_induction_on generalizing i k M M' with
  | _ n ih =>
    obtain ⟨m, r, hm, hr, hacc⟩ := h.accepted hik
    rcases h'.first hm hr hacc with ⟨k', hk', hmem⟩ | ⟨i', hi', hmem⟩
    · rcases hk'.lt_or_eq with hlt | rfl
      · have := ih (i + k') (by omega) h' h hmem rfl
        exact absurd (h.left_inj this hik) (by omega)
      · exact hmem
    · rcases hi'.lt_or_eq with hlt | rfl
      · have := ih (i' + k) (by omega) h' h hmem rfl
        exact absurd (h.right_inj this hik) (by omega)
      · exact hmem

theorem mem_iff (h : FirstMatch acc sent asked M) (h' : FirstMatch acc sent asked M') :
    (i, k) ∈ M ↔ (i, k) ∈ M' :=
  ⟨h.mem_of_mem h', h'.mem_of_mem h⟩

/-- Later messages and receives do not change what goes where. -/
lemma restrict (h : FirstMatch acc sent asked M) (a b : ℕ) :
    FirstMatch acc (sent.take a) (asked.take b) (M.filter fun x => x.1 < a ∧ x.2 < b) where
  left_inj h₁ h₂ := h.left_inj (List.mem_of_mem_filter h₁) (List.mem_of_mem_filter h₂)
  right_inj h₁ h₂ := h.right_inj (List.mem_of_mem_filter h₁) (List.mem_of_mem_filter h₂)
  accepted hik := by
    simp only [List.mem_filter, decide_eq_true_eq] at hik
    obtain ⟨m, r, hm, hr, hacc⟩ := h.accepted hik.1
    exact ⟨m, r, by rw [List.getElem?_take_of_lt hik.2.1, hm],
      by rw [List.getElem?_take_of_lt hik.2.2, hr], hacc⟩
  first {i k m r} hm hr hacc := by
    have hi : i < a := by have := (List.getElem?_eq_some_iff.1 hm).1; simp at this; omega
    have hk : k < b := by have := (List.getElem?_eq_some_iff.1 hr).1; simp at this; omega
    rw [List.getElem?_take_of_lt hi] at hm
    rw [List.getElem?_take_of_lt hk] at hr
    simp only [List.mem_filter, decide_eq_true_eq]
    rcases h.first hm hr hacc with ⟨k', hle, hmem⟩ | ⟨i', hle, hmem⟩
    · exact .inl ⟨k', hle, hmem, hi, by omega⟩
    · exact .inr ⟨i', hle, hmem, by omega, hk⟩

/-- What else the receives say does not matter. -/
lemma map_right {γ : Type*} (acc' : γ → α → Prop) (f : β → γ)
    (hf : ∀ r m, acc r m ↔ acc' (f r) m) (h : FirstMatch acc sent asked M) :
    FirstMatch acc' sent (asked.map f) M where
  left_inj := h.left_inj
  right_inj := h.right_inj
  accepted hik := by
    obtain ⟨m, r, hm, hr, hacc⟩ := h.accepted hik
    exact ⟨m, f r, hm, by rw [List.getElem?_map, hr, Option.map_some], (hf r m).1 hacc⟩
  first hm hr hacc := by
    rw [List.getElem?_map, Option.map_eq_some_iff] at hr
    obtain ⟨r, hr, rfl⟩ := hr
    exact h.first hm hr ((hf r _).2 hacc)

/-- A receive gets the same message as long as messages and receives come in the same orders. -/
theorem eq_of_initial {sent' msgs : List α} {asked' reqs : List β}
    (h : FirstMatch acc sent asked M) (h' : FirstMatch acc sent' asked' M') (hs : sent <+: msgs)
    (hs' : sent' <+: msgs) (ha : asked <+: reqs) (ha' : asked' <+: reqs) (hik : (i, k) ∈ M)
    (hik' : (i', k) ∈ M') : i = i' := by
  have hi := h.lt_left hik
  have hi' := h'.lt_left hik'
  have hk := h.lt_right hik
  have hk' := h'.lt_right hik'
  have hr := h.restrict sent'.length asked'.length
  have hr' := h'.restrict sent.length asked.length
  rw [take_eq_take_of_initial hs hs', take_eq_take_of_initial ha ha'] at hr
  have hiff := fun i k => hr.mem_iff (i := i) (k := k) hr'
  simp only [List.mem_filter, decide_eq_true_eq] at hiff
  rcases lt_or_ge i sent'.length with hlt | hge
  · exact h'.right_inj ((hiff i k).1 ⟨hik, hlt, hk'⟩).1 hik'
  · exact h.right_inj hik ((hiff i' k).2 ⟨hik', by omega, hk⟩).1

end FirstMatch

end NetPipe
