import Mathlib.Tactic

/-!
# Reader-writer locks with a queue

A lock has shared holders or one exclusive holder. A request that cannot be granted waits in a queue,
which is served when the last holder releases the lock.
-/

namespace NetPipe

/-- A lock: the requests that hold it, and the requests that wait for it. -/
structure RwLock (ρ : Type*) where
  holders : List ρ
  waiting : List ρ

namespace RwLock

variable {ρ : Type*} [DecidableEq ρ] (shared : ρ → Prop) [DecidablePred shared]

/-- The request can be granted beside the holders. -/
def Free (holders : List ρ) (r : ρ) : Prop := holders = [] ∨ shared r ∧ ∀ h ∈ holders, shared h

instance (holders : List ρ) (r : ρ) : Decidable (Free shared holders r) :=
  inferInstanceAs (Decidable (_ ∨ _))

/-- Grant the first requests of the queue as long as they can be granted. -/
def serve (holders : List ρ) : List ρ → RwLock ρ
  | [] => ⟨holders, []⟩
  | r :: waiting =>
    if Free shared holders r then serve (holders ++ [r]) waiting else ⟨holders, r :: waiting⟩

/-- The requests of the queue that `serve` grants. -/
def served (holders : List ρ) : List ρ → List ρ
  | [] => []
  | r :: waiting => if Free shared holders r then r :: served (holders ++ [r]) waiting else []

/-- A new request. -/
def request (r : ρ) (l : RwLock ρ) : RwLock ρ :=
  if Free shared l.holders r then { l with holders := l.holders ++ [r] }
  else { l with waiting := l.waiting ++ [r] }

/-- A holder releases the lock. -/
def release (h : ρ) (l : RwLock ρ) : RwLock ρ :=
  let holders := l.holders.erase h
  if holders = [] then serve shared holders l.waiting else { l with holders := holders }

/-- An exclusive holder is alone, and nobody waits for a lock that nobody holds. -/
structure Good (l : RwLock ρ) : Prop where
  alone : ∀ h ∈ l.holders, ¬ shared h → l.holders = [h]
  held : l.waiting ≠ [] → l.holders ≠ []

variable {shared}

omit [DecidableEq ρ] [DecidablePred shared] in
/-- A granted request keeps an exclusive holder alone. -/
lemma alone_append {holders : List ρ} {r : ρ}
    (h : ∀ h ∈ holders, ¬ shared h → holders = [h]) (hr : Free shared holders r) :
    ∀ h ∈ holders ++ [r], ¬ shared h → holders ++ [r] = [h] := by
  intro h' hmem hex
  rcases hr with rfl | ⟨hr, hall⟩
  · simp at hmem
    simp [hmem]
  · rcases List.mem_append.mp hmem with hmem | hmem
    · exact absurd (hall h' hmem) hex
    · rw [List.mem_singleton.mp hmem] at hex
      exact absurd hr hex

omit [DecidableEq ρ] in
lemma serve_eq (holders waiting : List ρ) : (serve shared holders waiting).holders =
    holders ++ served shared holders waiting ∧
    served shared holders waiting ++ (serve shared holders waiting).waiting = waiting := by
  induction waiting generalizing holders with
  | nil => simp [serve, served]
  | cons r waiting ih =>
    simp only [serve, served]
    split_ifs with hr
    · obtain ⟨h₁, h₂⟩ := ih (holders ++ [r])
      exact ⟨by simp [h₁], congrArg (r :: ·) h₂⟩
    · simp

omit [DecidableEq ρ] in
lemma Good.serve {holders waiting : List ρ} (h : ∀ h ∈ holders, ¬ shared h → holders = [h]) :
    (serve shared holders waiting).Good shared := by
  induction waiting generalizing holders with
  | nil => exact ⟨h, fun hw => absurd rfl hw⟩
  | cons r waiting ih =>
    rw [RwLock.serve]
    split_ifs with hr
    · exact ih (alone_append h hr)
    · refine ⟨h, fun _ hnil => hr (Or.inl hnil)⟩

omit [DecidableEq ρ] in
lemma Good.request {l : RwLock ρ} (h : l.Good shared) (r : ρ) :
    (l.request shared r).Good shared := by
  rw [RwLock.request]
  split_ifs with hr
  · exact ⟨alone_append h.alone hr, fun _ => by simp⟩
  · exact ⟨h.alone, fun _ hnil => hr (Or.inl hnil)⟩

lemma Good.release {l : RwLock ρ} (h : l.Good shared) (h' : ρ) :
    (l.release shared h').Good shared := by
  have halone : ∀ k ∈ l.holders.erase h', ¬ shared k → l.holders.erase h' = [k] := by
    intro k hk hex
    have hl := h.alone k (List.mem_of_mem_erase hk) hex
    rw [hl] at hk ⊢
    by_cases hkh : k = h'
    · simp [hkh] at hk
    · exact List.erase_of_not_mem (by simpa using Ne.symm hkh)
  rw [RwLock.release]
  split_ifs with hnil
  · exact Good.serve halone
  · exact ⟨halone, fun _ => hnil⟩

end RwLock

/-! ### Which requests are confirmed -/

/-- Each request is confirmed at most once, and the others wait in the order of their arrival. -/
structure Served {ρ : Type*} [DecidableEq ρ] (requested confirmed waiting : List ρ) : Prop where
  requested_nodup : requested.Nodup
  confirmed_nodup : confirmed.Nodup
  confirmed_subset : confirmed ⊆ requested
  waiting_eq : waiting = requested.filter (· ∉ confirmed)

namespace Served

variable {ρ : Type*} [DecidableEq ρ] {requested confirmed waiting : List ρ} {r : ρ}

lemma nil : Served ([] : List ρ) [] [] := ⟨List.nodup_nil, List.nodup_nil, List.nil_subset _, rfl⟩

omit [DecidableEq ρ] in
lemma nodup_concat {l : List ρ} (h : l.Nodup) (hr : r ∉ l) : (l ++ [r]).Nodup := by
  simpa [List.nodup_append] using ⟨h, fun a ha hra => hr (hra ▸ ha)⟩

/-- A new request waits. -/
lemma later (h : Served requested confirmed waiting) (hr : r ∉ requested) :
    Served (requested ++ [r]) confirmed (waiting ++ [r]) := by
  have hr' : r ∉ confirmed := fun hmem => hr (h.confirmed_subset hmem)
  refine ⟨nodup_concat h.requested_nodup hr, h.confirmed_nodup, ?_, ?_⟩
  · exact fun _ hmem => List.mem_append_left _ (h.confirmed_subset hmem)
  · simp [h.waiting_eq, List.filter_append, hr']

/-- The first requests of the queue are confirmed. -/
lemma serve {out : List ρ} (h : Served requested confirmed (out ++ waiting)) :
    Served requested (confirmed ++ out) waiting := by
  have hw : (out ++ waiting).Nodup := h.waiting_eq ▸ h.requested_nodup.filter _
  have hout : ∀ x ∈ out ++ waiting, x ∈ requested ∧ x ∉ confirmed := by
    intro x hx
    rw [h.waiting_eq] at hx
    simpa using hx
  refine ⟨h.requested_nodup, ?_, ?_, ?_⟩
  · refine List.nodup_append.mpr ⟨h.confirmed_nodup, hw.of_append_left, ?_⟩
    rintro x hx y hy rfl
    exact (hout x (List.mem_append_left _ hy)).2 hx
  · intro x hx
    rcases List.mem_append.mp hx with hx | hx
    · exact h.confirmed_subset hx
    · exact (hout x (List.mem_append_left _ hx)).1
  · have hsplit : requested.filter (· ∉ confirmed ++ out) =
        (requested.filter (· ∉ confirmed)).filter (· ∉ out) := by
      simp [List.filter_filter, Bool.and_comm]
    have hdis := (List.nodup_append.mp hw).2.2
    have hnil : out.filter (· ∉ out) = [] := by simp
    have hself : waiting.filter (· ∉ out) = waiting := by
      simpa using fun x hx hx' => hdis x hx' x hx rfl
    rw [hsplit, ← h.waiting_eq, List.filter_append, hnil, hself, List.nil_append]

/-- A new request is confirmed at once. -/
lemma now (h : Served requested confirmed waiting) (hr : r ∉ requested) :
    Served (requested ++ [r]) (confirmed ++ [r]) waiting := by
  have hr' : r ∉ confirmed := fun hmem => hr (h.confirmed_subset hmem)
  refine ⟨nodup_concat h.requested_nodup hr, nodup_concat h.confirmed_nodup hr', ?_, ?_⟩
  · intro x hx
    rcases List.mem_append.mp hx with hx | hx
    · exact List.mem_append_left _ (h.confirmed_subset hx)
    · exact List.mem_append_right _ hx
  · have hne : requested.filter (· ∉ confirmed ++ [r]) = requested.filter (· ∉ confirmed) := by
      refine List.filter_congr fun x hx => ?_
      have hxr : x ≠ r := fun hxr => hr (hxr ▸ hx)
      simp [hxr]
    rw [List.filter_append, hne, ← h.waiting_eq]
    simp

end Served

end NetPipe
