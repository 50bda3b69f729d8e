import NetPipe.MpLite.Message

/-!
# Status arrays in Fortran

`MPI_WAITALL` waits for the requests with C structures and then converts these to the integers of a
Fortran array. The Fortran interface file gives `MPI_STATUS_SIZE` integers to an element, while the
conversion goes on by one.
-/

namespace NetPipe.MpLite

/-- The part of `MPI_Status` that is set. -/
structure MpiStatus where
  nbytes : ℤ
  mpiSource : ℤ
  mpiTag : ℤ
  deriving DecidableEq, Repr

/-- What `MP_Wait` reads and writes: the entries as their transfers leave them, and the data of the
last message. -/
structure Waiter where
  msg_list : ℕ → MsgEntry
  last_size : ℤ
  last_src : ℤ
  last_tag : ℤ

/-- `MP_Wait` for a transfer that is done, with the new value of `*msg_id`. The program stops at an
entry that is free. -/
def mpWait (msg_id : ℤ) (s : Waiter) : Option (Waiter × ℤ) :=
  if msg_id = -1 then some (s, msg_id)
  else
    let msg := s.msg_list msg_id.toNat
    if msg.buf = 0 then none
    else
      let s := { s with last_src := msg.src, last_tag := msg.tag, last_size := msg.nbytes }
      let s := if msg.send_flag ≠ 3 then
        { s with msg_list := Function.update s.msg_list msg_id.toNat { msg with buf := 0 } } else s
      some (s, -1)

/-- `MPI_Wait`. -/
def mpiWait (msg_id : ℤ) (s : Waiter) : Option (Waiter × ℤ × MpiStatus) :=
  (mpWait msg_id s).map fun (s, msg_id) => (s, msg_id, ⟨s.last_size, s.last_src, s.last_tag⟩)

/-- `MPI_Waitall`, with the new requests and the statuses. -/
def mpiWaitall : List ℤ → Waiter → Option (Waiter × List ℤ × List MpiStatus)
  | [], s => some (s, [], [])
  | msg_id :: array_of_requests, s =>
    (mpiWait msg_id s).bind fun (s, msg_id, status) =>
      (mpiWaitall array_of_requests s).map fun (s, ids, statuses) =>
        (s, msg_id :: ids, status :: statuses)

/-- `MPI_Status_c2f`, where `fstatus` points to place `k` of the array. -/
def mpiStatusC2f (status : MpiStatus) (k : ℕ) (fstatus : ℕ → ℤ) : ℕ → ℤ :=
  let fstatus := Function.update fstatus (k + 0) status.nbytes
  let fstatus := Function.update fstatus (k + 1) status.mpiSource
  Function.update fstatus (k + 2) status.mpiTag

/-- The loop of `MPI_WAITALL` over the statuses from number `i` on. -/
def convertLoop : ℕ → List MpiStatus → (ℕ → ℤ) → ℕ → ℤ
  | _, [], fstatuses => fstatuses
  | i, status :: statuses, fstatuses =>
    convertLoop (i + 1) statuses (mpiStatusC2f status i fstatuses)

/-- `MPI_WAITALL`, with the new requests and the array of statuses. -/
def mpiWAITALL (array_of_requests : List ℤ) (s : Waiter) (array_of_fstatuses : ℕ → ℤ) :
    Option (Waiter × List ℤ × (ℕ → ℤ)) :=
  (mpiWaitall array_of_requests s).map fun (s, ids, statuses) =>
    (s, ids, convertLoop 0 statuses array_of_fstatuses)

/-- `MPI_STATUS_SIZE`. -/
def mpiStatusSize : ℕ := 4

/-- The place in the array of component `c` of element `i`, both in the order of Fortran. Components
count from 1, and elements from 0. -/
def fstatusAt (i c : ℕ) : ℕ := mpiStatusSize * i + (c - 1)

/-- `MPI_SOURCE` and `MPI_TAG` of the interface file, and the component that `MPI_GET_COUNT` reads. -/
def fCount : ℕ := 1

@[inherit_doc fCount]
def fSource : ℕ := 2

@[inherit_doc fCount]
def fTag : ℕ := 3

/-- The requests are different, and their entries are in use. -/
structure Requests (array_of_requests : List ℤ) (s : Waiter) : Prop where
  nodup : array_of_requests.Nodup
  live : ∀ id ∈ array_of_requests, 0 ≤ id ∧ (s.msg_list id.toNat).buf ≠ 0

/-- Each element of the array describes its message. -/
def Placed (array_of_requests : List ℤ) (s : Waiter) (fstatuses : ℕ → ℤ) : Prop :=
  ∀ i (hi : i < array_of_requests.length),
    fstatuses (fstatusAt i fCount) = (s.msg_list array_of_requests[i].toNat).nbytes ∧
    fstatuses (fstatusAt i fSource) = (s.msg_list array_of_requests[i].toNat).src ∧
    fstatuses (fstatusAt i fTag) = (s.msg_list array_of_requests[i].toNat).tag

/-- The conversion of one of `count` statuses does not write to the element of another. -/
def Apart (count : ℕ) : Prop :=
  ∀ i < count, ∀ j < count, i ≠ j → ∀ c, 1 ≤ c → c ≤ mpiStatusSize → ∀ status fstatuses,
    mpiStatusC2f status j fstatuses (fstatusAt i c) = fstatuses (fstatusAt i c)

/-- `MPI_WAITALL` returns, and the array holds the statuses. -/
def Delivers (array_of_requests : List ℤ) (s : Waiter) (array_of_fstatuses : ℕ → ℤ) : Prop :=
  ∃ s' ids fstatuses, mpiWAITALL array_of_requests s array_of_fstatuses = some (s', ids, fstatuses) ∧
    Placed array_of_requests s fstatuses ∧ Apart array_of_requests.length

/-- The status of an entry. -/
def Waiter.status (s : Waiter) (id : ℤ) : MpiStatus :=
  ⟨(s.msg_list id.toNat).nbytes, (s.msg_list id.toNat).src, (s.msg_list id.toNat).tag⟩

variable {ids : List ℤ} {s : Waiter} {f : ℕ → ℤ} {id : ℤ} {i k x : ℕ} {statuses : List MpiStatus}
  {st : MpiStatus}

/-! ### Waiting -/

/-- `MPI_Wait` delivers the status of its message, and leaves the other entries alone. -/
lemma mpiWait_eq (h0 : 0 ≤ id) (hlive : (s.msg_list id.toNat).buf ≠ 0) :
    ∃ s', mpiWait id s = some (s', -1, s.status id) ∧ (∀ x, s'.status x = s.status x) ∧
      ∀ x, x ≠ id.toNat → s'.msg_list x = s.msg_list x := by
  have hne : id ≠ -1 := by
    rintro rfl
    exact absurd h0 (by decide)
  rw [mpiWait, mpWait, if_neg hne]
  simp only [if_neg hlive, Option.map_some]
  by_cases hflag : (s.msg_list id.toNat).send_flag ≠ 3
  · simp only [if_pos hflag]
    refine ⟨_, rfl, fun x => ?_, fun x hx => Function.update_of_ne hx _ _⟩
    rcases eq_or_ne x.toNat id.toNat with hx | hx
    · simp [Waiter.status, hx]
    · simp [Waiter.status, Function.update_of_ne hx]
  · simp only [if_neg hflag]
    exact ⟨_, rfl, fun _ => rfl, fun _ _ => rfl⟩

/-- `MPI_Waitall` delivers the statuses of all messages. -/
lemma mpiWaitall_eq (h : Requests ids s) :
    ∃ s' ids', mpiWaitall ids s = some (s', ids', ids.map s.status) := by
  induction ids generalizing s with
  | nil => exact ⟨s, [], rfl⟩
  | cons id ids ih =>
    obtain ⟨hid, hnodup⟩ := List.nodup_cons.mp h.nodup
    obtain ⟨h0, hlive⟩ := h.live id List.mem_cons_self
    obtain ⟨s₁, hwait, hstatus, hrest⟩ := mpiWait_eq h0 hlive
    have hreq : Requests ids s₁ := by
      refine ⟨hnodup, fun x hx => ?_⟩
      obtain ⟨hx0, hxlive⟩ := h.live x (List.mem_cons_of_mem _ hx)
      have hne : x ≠ id := fun heq => hid (heq ▸ hx)
      rw [hrest x.toNat (by omega)]
      exact ⟨hx0, hxlive⟩
    obtain ⟨s', ids', hall⟩ := ih hreq
    refine ⟨s', -1 :: ids', ?_⟩
    simp [mpiWaitall, hwait, hall, hstatus]

/-! ### The conversion -/

lemma mpiStatusC2f_of_lt (hx : x < k) : mpiStatusC2f st k f x = f x := by
  simp only [mpiStatusC2f]
  rw [Function.update_of_ne (by omega), Function.update_of_ne (by omega),
    Function.update_of_ne (by omega)]

lemma convertLoop_of_lt (hx : x < i) : convertLoop i statuses f x = f x := by
  induction statuses generalizing i f with
  | nil => rfl
  | cons st statuses ih => rw [convertLoop, ih (Nat.lt_succ_of_lt hx), mpiStatusC2f_of_lt hx]

/-- The array ends up with the sizes of all messages, one after the other. -/
lemma convertLoop_get (hk : k < statuses.length) :
    convertLoop i statuses f (i + k) = statuses[k].nbytes := by
  induction statuses generalizing i f k with
  | nil => exact absurd hk (Nat.not_lt_zero k)
  | cons st statuses ih =>
    rw [convertLoop]
    cases k with
    | zero =>
      rw [convertLoop_of_lt (by omega)]
      simp [mpiStatusC2f]
    | succ k =>
      have hstep := ih (i := i + 1) (f := mpiStatusC2f st i f) (Nat.lt_of_succ_lt_succ hk)
      rwa [Nat.add_right_comm] at hstep

lemma mpiWAITALL_eq (h : Requests ids s) (f : ℕ → ℤ) : ∃ s' ids',
    mpiWAITALL ids s f = some (s', ids', convertLoop 0 (ids.map s.status) f) := by
  obtain ⟨s', ids', hwait⟩ := mpiWaitall_eq h
  exact ⟨s', ids', by rw [mpiWAITALL, hwait]; rfl⟩

/-- The second of two conversions writes to the first element. -/
lemma not_apart {count : ℕ} (h : 2 ≤ count) : ¬ Apart count := by
  intro hapart
  have hsame := hapart 0 (by omega) 1 h Nat.zero_ne_one fSource (by decide) (by decide) ⟨1, 0, 0⟩
    fun _ => 0
  revert hsame
  decide

lemma placed_singleton : Placed [id] s (convertLoop 0 [s.status id] f) := by
  intro i hi
  obtain rfl : i = 0 := Nat.lt_one_iff.mp hi
  exact ⟨rfl, rfl, rfl⟩

/-- The place of the first source holds the size of the second message. -/
lemma not_placed {id' : ℤ} (hne : (s.status id).mpiSource ≠ (s.status id').nbytes) :
    ¬ Placed (id :: id' :: ids) s (convertLoop 0 ((id :: id' :: ids).map s.status) f) := by
  intro hplaced
  have hsource := (hplaced 0 (Nat.succ_pos _)).2.1
  have hget : convertLoop 0 ((id :: id' :: ids).map s.status) f (0 + 1) = (s.status id').nbytes :=
    convertLoop_get (by simp)
  exact hne (hsource.symm.trans hget)

/-- The statuses are delivered exactly for at most one request. -/
theorem mpiWAITALL_delivers_iff (ids : List ℤ) (s : Waiter) (f : ℕ → ℤ) (h : Requests ids s) :
    Delivers ids s f ↔ ids.length ≤ 1 := by
  obtain ⟨s', ids', hwait⟩ := mpiWAITALL_eq h f
  constructor
  · rintro ⟨_, _, _, -, -, hapart⟩
    by_contra hlen
    exact not_apart (Nat.lt_of_not_le hlen) hapart
  · intro hlen
    refine ⟨s', ids', _, hwait, ?_, fun i hi j hj hne => by omega⟩
    match ids, hlen with
    | [], _ => exact fun i hi => absurd hi (Nat.not_lt_zero i)
    | [id], _ => exact placed_singleton

/-- Two messages: 8 bytes from process 1 with tag 5, and 16 bytes from process 2 with tag 6. -/
def twoWaiting : Waiter :=
  ⟨fun id => if id = 0 then .create 0 64 8 1 (-1) 5 else .create 0 128 16 2 (-1) 6, 0, 0, 0⟩

/-- The source of the first message is overwritten with the size of the second. -/
theorem not_delivers_two : ¬ Delivers [0, 1] twoWaiting fun _ => 0 := by
  rintro ⟨s', ids', f, hwait, hplaced, -⟩
  have hreq : Requests [0, 1] twoWaiting := ⟨by decide, by decide⟩
  obtain ⟨_, _, hwait'⟩ := mpiWAITALL_eq hreq fun _ => 0
  rw [hwait, Option.some.injEq, Prod.mk.injEq, Prod.mk.injEq] at hwait'
  obtain ⟨-, -, rfl⟩ := hwait'
  exact not_placed (by decide) hplaced

/-- The first of the two messages alone. -/
theorem delivers_one : Delivers [0] twoWaiting fun _ => 0 :=
  (mpiWAITALL_delivers_iff [0] twoWaiting (fun _ => 0) ⟨by decide, by decide⟩).mpr (by decide)

end NetPipe.MpLite
