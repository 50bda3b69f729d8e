import NetPipe.Library.Inevitable
import NetPipe.MpLite.Engine

/-!
# Synchronous sends

`MPI_Ssend` waits for a token before it sends. The token is a message with the tag of the user,
and only `MP_SRecv` sends it. Two processes run here with any calls to each other: a message that
was sent arrives in order, and is taken by the first receive that accepts it or buffered. With
more receives at one process than messages from the other, no run can be completed.
-/

namespace NetPipe.MpLite.Peers

/-- A message. Whether it is a token is known to nobody. -/
structure Packet where
  data : List UInt8
  tag : ℤ
  token : Bool
  deriving DecidableEq, Repr

/-- A posted receive, with whether it is for a token. -/
structure Post where
  nbytes : ℕ
  tag : ℤ
  token : Bool
  deriving DecidableEq, Repr

/-- The test of `check_header` and `recv_from_q`. -/
def Post.accepts (r : Post) (m : Packet) : Bool :=
  decide ({ msgNull with nbytes := r.nbytes, tag := r.tag }.Fits m.data.length m.tag)

/-- What a process has in `msg_list`: the id of a message is its position. -/
inductive Slot where
  | sent
  | recv (r : Post) (got : Option Packet)
  deriving DecidableEq, Repr

namespace Slot

def isSent : Slot → Bool
  | sent => true
  | recv _ _ => false

def isRecv : Slot → Bool
  | sent => false
  | recv _ _ => true

def isGot : Slot → Bool
  | recv _ (some _) => true
  | _ => false

/-- What `MP_Wait` waits for: the rest of a send is pushed to a buffer. -/
def isDone : Slot → Bool
  | recv _ none => false
  | _ => true

/-- What a receive of the user got. -/
def userData : Slot → Option (List UInt8)
  | recv r (some m) => if r.token then none else some m.data
  | _ => none

end Slot

/-- `MP_ASend`, `MP_ARecv` and `MP_Wait`. -/
inductive Act where
  | asend (m : Packet)
  | arecv (r : Post)
  | wait (id : ℕ)
  deriving DecidableEq, Repr

namespace Act

def isAsend : Act → Bool
  | asend _ => true
  | _ => false

def isArecv : Act → Bool
  | arecv _ => true
  | _ => false

end Act

/-- A call to the other process. -/
inductive MpiCall where
  | send (data : List UInt8) (tag : ℤ)
  | isend (data : List UInt8) (tag : ℤ)
  | ssend (data : List UInt8) (tag : ℤ)
  | recv (nbytes : ℕ) (tag : ℤ)
  | irecv (nbytes : ℕ) (tag : ℤ)
  | srecv (nbytes : ℕ) (tag : ℤ)
  | wait (id : ℕ)
  deriving DecidableEq, Repr

namespace MpiCall

/-- `int token = 888`. -/
def token : List UInt8 := [0x78, 0x03, 0x00, 0x00]

/-- What the calls do, with `n` messages before them. -/
def acts : ℕ → List MpiCall → List Act
  | _, [] => []
  | n, send data tag :: cs => .asend ⟨data, tag, false⟩ :: .wait n :: acts (n + 1) cs
  | n, isend data tag :: cs => .asend ⟨data, tag, false⟩ :: acts (n + 1) cs
  | n, ssend data tag :: cs =>
    .arecv ⟨4, tag, true⟩ :: .wait n :: .asend ⟨data, tag, false⟩ :: .wait (n + 1) ::
      acts (n + 2) cs
  | n, recv nbytes tag :: cs => .arecv ⟨nbytes, tag, false⟩ :: .wait n :: acts (n + 1) cs
  | n, irecv nbytes tag :: cs => .arecv ⟨nbytes, tag, false⟩ :: acts (n + 1) cs
  | n, srecv nbytes tag :: cs =>
    .arecv ⟨nbytes, tag, false⟩ :: .asend ⟨token, tag, true⟩ :: .wait (n + 1) :: .wait n ::
      acts (n + 2) cs
  | n, wait id :: cs => .wait id :: acts n cs

/-- A call that sends a message of the user. -/
def sends : MpiCall → Bool
  | send _ _ | isend _ _ | ssend _ _ => true
  | _ => false

/-- A call that receives a message of the user. -/
def receives : MpiCall → Bool
  | recv _ _ | irecv _ _ | srecv _ _ => true
  | _ => false

def isSsend : MpiCall → Bool
  | ssend _ _ => true
  | _ => false

def isSrecv : MpiCall → Bool
  | srecv _ _ => true
  | _ => false

/-- The data of a send. -/
def userData : MpiCall → Option (List UInt8)
  | send data _ | isend data _ | ssend data _ => some data
  | _ => none

/-- The message of a send. -/
def packet : MpiCall → Option Packet
  | send data tag | isend data tag | ssend data tag => some ⟨data, tag, false⟩
  | _ => none

/-- What a receive of the user posts. -/
def post : MpiCall → Option Post
  | recv nbytes tag | irecv nbytes tag | srecv nbytes tag => some ⟨nbytes, tag, false⟩
  | _ => none

/-- The receive `d` is there for the message of `c`: it accepts it, and `MP_SRecv` is there for
synchronous sends only. -/
def Answers (c d : MpiCall) : Prop :=
  (∃ m r, c.packet = some m ∧ d.post = some r ∧ r.accepts m) ∧ (d.isSrecv → c.isSsend)

/-- Every request is waited for after the call that made it, if that is a receive; `n` messages
came before the calls. -/
def Waited : ℕ → List MpiCall → Prop
  | _, [] => True
  | n, irecv _ _ :: cs => wait n ∈ cs ∧ Waited (n + 1) cs
  | n, send _ _ :: cs | n, isend _ _ :: cs | n, recv _ _ :: cs => Waited (n + 1) cs
  | n, ssend _ _ :: cs | n, srecv _ _ :: cs => Waited (n + 2) cs
  | n, wait id :: cs => id < n ∧ Waited n cs

end MpiCall

/-- A process: what it has still to do, its messages, and those on the way to it and in `msg_q`. -/
structure Party where
  acts : List Act
  slots : List Slot
  arriving : List Packet
  queue : List Packet
  deriving DecidableEq, Repr

namespace Party

/-- `MP_ASend` at the sender. -/
def send (rest : List Act) (p : Party) : Party :=
  { p with acts := rest, slots := p.slots ++ [.sent] }

/-- `MP_ASend` at the receiver. -/
def arrive (m : Packet) (p : Party) : Party := { p with arriving := p.arriving ++ [m] }

/-- `MP_ARecv`: the first buffered message that fits, or none yet. -/
def post (r : Post) (rest : List Act) (p : Party) : Party :=
  { p with
    acts := rest
    slots := p.slots ++ [.recv r (p.queue.find? r.accepts)]
    queue := p.queue.eraseP r.accepts }

/-- The first open receive that accepts the message gets it. -/
def fill (m : Packet) : List Slot → Option (List Slot)
  | [] => none
  | .recv r none :: l =>
    if r.accepts m then some (.recv r (some m) :: l) else (fill m l).map (.recv r none :: ·)
  | x :: l => (fill m l).map (x :: ·)

/-- A message has arrived. -/
def deliver (m : Packet) (l : List Packet) (p : Party) : Party :=
  match fill m p.slots with
  | some slots => { p with slots := slots, arriving := l }
  | none => { p with queue := p.queue ++ [m], arriving := l }

end Party

/-- Two processes. -/
abbrev Pair := Bool → Party

namespace Pair

/-- The beginning, with the calls of the two. -/
def start (pa pb : List MpiCall) : Pair
  | false => ⟨MpiCall.acts 0 pa, [], [], []⟩
  | true => ⟨MpiCall.acts 0 pb, [], [], []⟩

/-- A step of the process `i`, or a message arrives at it. -/
inductive Step : Pair → Pair → Prop where
  | asend {s : Pair} (i : Bool) (m : Packet) (rest : List Act)
      (h : (s i).acts = .asend m :: rest) :
      Step s (Function.update (Function.update s i ((s i).send rest)) (!i) ((s !i).arrive m))
  | arecv {s : Pair} (i : Bool) (r : Post) (rest : List Act)
      (h : (s i).acts = .arecv r :: rest) : Step s (Function.update s i ((s i).post r rest))
  | wait {s : Pair} (i : Bool) (id : ℕ) (rest : List Act) (x : Slot)
      (h : (s i).acts = .wait id :: rest) (hx : (s i).slots[id]? = some x)
      (hdone : x.isDone = true) : Step s (Function.update s i { s i with acts := rest })
  | deliver {s : Pair} (i : Bool) (m : Packet) (l : List Packet)
      (h : (s i).arriving = m :: l) : Step s (Function.update s i ((s i).deliver m l))

/-- Both processes have made all their calls. -/
def Complete (s : Pair) : Prop := ∀ i, (s i).acts = []

/-- Neither process can go on. -/
def Deadlocked (s : Pair) : Prop := ¬ s.Complete ∧ ∀ s', ¬ Step s s'

/-- The receives of the user are completed with what the user sent, and tokens are taken by those
that wait for them. -/
structure Synchronous (pa pb : List MpiCall) : Prop where
  noDeadlock : ∀ s, Relation.ReflTransGen Step (start pa pb) s → ¬ s.Deadlocked
  delivered : ∀ s, Relation.ReflTransGen Step (start pa pb) s → s.Complete →
    ((s true).slots.filterMap Slot.userData).Perm (pa.filterMap MpiCall.userData) ∧
    ((s false).slots.filterMap Slot.userData).Perm (pb.filterMap MpiCall.userData)
  noToken : ∀ s, Relation.ReflTransGen Step (start pa pb) s → s.Complete →
    ∀ i, ∀ m ∈ (s i).arriving ++ (s i).queue, m.token = false

end Pair

/-! ### One process -/

namespace Party

variable {p : Party} {m : Packet} {r : Post} {rest : List Act} {l : List Packet}

/-- The messages sent. -/
def sent (p : Party) : ℕ := p.slots.countP Slot.isSent

/-- The receives posted. -/
def posted (p : Party) : ℕ := p.slots.countP Slot.isRecv

/-- The messages that left the other process: received, buffered or on the way. -/
def taken (p : Party) : ℕ := p.slots.countP Slot.isGot + p.queue.length + p.arriving.length

/-- One open receive is filled. -/
lemma fill_eq_some {k k' : List Slot} (h : fill m k = some k') :
    ∃ a r b, k = a ++ .recv r none :: b ∧ k' = a ++ .recv r (some m) :: b := by
  induction k generalizing k' with
  | nil => cases h
  | cons x k ih =>
    have hskip : ∀ x k'', fill m k = some k'' → k' = x :: k'' →
        ∃ a r b, x :: k = a ++ .recv r none :: b ∧ k' = a ++ .recv r (some m) :: b := by
      rintro x k'' hk rfl
      obtain ⟨a, r, b, rfl, rfl⟩ := ih hk
      exact ⟨x :: a, r, b, rfl, rfl⟩
    match x, h with
    | .sent, h =>
      obtain ⟨k'', hk, rfl⟩ := Option.map_eq_some_iff.mp h
      exact hskip _ k'' hk rfl
    | .recv r (some _), h =>
      obtain ⟨k'', hk, rfl⟩ := Option.map_eq_some_iff.mp h
      exact hskip _ k'' hk rfl
    | .recv r none, h =>
      rw [fill] at h
      split at h
      · cases h
        exact ⟨[], r, k, rfl, rfl⟩
      · obtain ⟨k'', hk, rfl⟩ := Option.map_eq_some_iff.mp h
        exact hskip _ k'' hk rfl

/-- What a delivery does: an open receive is filled, or the message is buffered. -/
lemma deliver_cases (m : Packet) (l : List Packet) (p : Party) :
    (∃ a r b, p.slots = a ++ .recv r none :: b ∧
      p.deliver m l = { p with slots := a ++ .recv r (some m) :: b, arriving := l }) ∨
    p.deliver m l = { p with queue := p.queue ++ [m], arriving := l } := by
  unfold deliver
  split
  · obtain ⟨a, r, b, hslots, rfl⟩ := fill_eq_some ‹_›
    exact Or.inl ⟨a, r, b, hslots, rfl⟩
  · exact Or.inr rfl

@[simp] lemma sent_send : (p.send rest).sent = p.sent + 1 := by
  simp [send, sent, Slot.isSent]

@[simp] lemma posted_send : (p.send rest).posted = p.posted := by
  simp [send, posted, Slot.isRecv]

@[simp] lemma taken_send : (p.send rest).taken = p.taken := by
  simp [send, taken, Slot.isGot]

@[simp] lemma taken_arrive : (p.arrive m).taken = p.taken + 1 := by
  simp [arrive, taken]
  ring

@[simp] lemma sent_post : (p.post r rest).sent = p.sent := by
  simp [post, sent, Slot.isSent]

@[simp] lemma posted_post : (p.post r rest).posted = p.posted + 1 := by
  simp [post, posted, Slot.isRecv]

/-- A posted receive takes a buffered message or none. -/
lemma taken_post : (p.post r rest).taken = p.taken := by
  cases hf : p.queue.find? r.accepts with
  | none =>
    have herase : p.queue.eraseP r.accepts = p.queue :=
      List.eraseP_of_forall_not (List.find?_eq_none.mp hf)
    simp [post, taken, hf, herase, Slot.isGot]
  | some m =>
    have hmem : m ∈ p.queue := List.mem_of_find?_eq_some hf
    have hlen : (p.queue.eraseP r.accepts).length + 1 = p.queue.length := by
      rw [List.length_eraseP_of_mem hmem (List.find?_some hf)]
      exact Nat.sub_add_cancel (List.length_pos_of_mem hmem)
    simp only [post, taken, hf, List.countP_append, List.countP_singleton, Slot.isGot, if_true,
      ← hlen]
    ring

lemma sent_deliver : (p.deliver m l).sent = p.sent := by
  rcases deliver_cases m l p with ⟨a, r, b, hslots, hd⟩ | hd
  · simp [hd, sent, hslots, Slot.isSent]
  · rw [hd]
    rfl

lemma posted_deliver : (p.deliver m l).posted = p.posted := by
  rcases deliver_cases m l p with ⟨a, r, b, hslots, hd⟩ | hd
  · simp [hd, posted, hslots, List.countP_cons, Slot.isRecv]
  · rw [hd]
    rfl

lemma acts_deliver : (p.deliver m l).acts = p.acts := by
  rcases deliver_cases m l p with ⟨a, r, b, hslots, hd⟩ | hd <;> rw [hd]

lemma arriving_deliver : (p.deliver m l).arriving = l := by
  rcases deliver_cases m l p with ⟨a, r, b, hslots, hd⟩ | hd <;> rw [hd]

lemma length_slots_deliver : (p.deliver m l).slots.length = p.slots.length := by
  rcases deliver_cases m l p with ⟨a, r, b, hslots, hd⟩ | hd
  · simp [hd, hslots]
  · rw [hd]

/-- A delivered message was on the way. -/
lemma taken_deliver (h : p.arriving = m :: l) : (p.deliver m l).taken = p.taken := by
  rcases deliver_cases m l p with ⟨a, r, b, hslots, hd⟩ | hd
  · simp [hd, taken, hslots, h, List.countP_cons, Slot.isGot]
    ring
  · simp [hd, taken, h]
    ring

end Party

/-- Every receive among the acts is waited for; the next message gets the id `n`. -/
def Settles : ℕ → List Act → Prop
  | _, [] => True
  | n, .asend _ :: as => Settles (n + 1) as
  | n, .arecv _ :: as => .wait n ∈ as ∧ Settles (n + 1) as
  | n, .wait _ :: as => Settles n as

/-- A process sends `S` messages and receives `R` in all, and waits for what it receives. -/
structure Party.Kept (S R : ℕ) (p : Party) : Prop where
  sends : p.sent + p.acts.countP Act.isAsend = S
  recvs : p.posted + p.acts.countP Act.isArecv = R
  settles : Settles p.slots.length p.acts
  awaited : ∀ id r, p.slots[id]? = some (.recv r none) → .wait id ∈ p.acts

namespace Party.Kept

variable {S R : ℕ} {p : Party} {m : Packet} {r : Post} {rest : List Act} {l : List Packet}

lemma send (h : p.Kept S R) (ha : p.acts = .asend m :: rest) : (p.send rest).Kept S R := by
  obtain ⟨hs, hr, hset, haw⟩ := h
  rw [ha] at hs hr hset haw
  rw [List.countP_cons_of_pos rfl] at hs
  refine ⟨?_, ?_, ?_, ?_⟩
  · rw [sent_send, ← hs]
    exact Nat.add_right_comm _ _ _
  · rw [posted_send, ← hr]
    rfl
  · simpa [Party.send, Settles] using hset
  · intro id r' hid
    have hold : p.slots[id]? = some (.recv r' none) := by
      rw [Party.send, List.getElem?_append] at hid
      split at hid
      · exact hid
      · cases List.mem_singleton.mp (List.mem_of_getElem? hid)
    exact (List.mem_cons.mp (haw id r' hold)).resolve_left nofun

lemma arrive (h : p.Kept S R) : (p.arrive m).Kept S R :=
  ⟨h.sends, h.recvs, h.settles, h.awaited⟩

lemma post (h : p.Kept S R) (ha : p.acts = .arecv r :: rest) : (p.post r rest).Kept S R := by
  obtain ⟨hs, hr, hset, haw⟩ := h
  rw [ha] at hs hr hset haw
  rw [List.countP_cons_of_pos rfl] at hr
  refine ⟨?_, ?_, ?_, ?_⟩
  · rw [sent_post, ← hs]
    rfl
  · rw [posted_post, ← hr]
    exact Nat.add_right_comm _ _ _
  · simpa [Party.post] using hset.2
  · intro id r' hid
    rw [Party.post, List.getElem?_append] at hid
    split at hid
    · exact (List.mem_cons.mp (haw id r' hid)).resolve_left nofun
    · -- the new receive, which has the next id
      have hlt : id - p.slots.length < 1 := (List.getElem?_eq_some_iff.mp hid).1
      have hid' : id = p.slots.length := by omega
      rw [hid']
      exact hset.1

lemma wait {id : ℕ} {x : Slot} (h : p.Kept S R) (ha : p.acts = .wait id :: rest)
    (hx : p.slots[id]? = some x) (hdone : x.isDone = true) : { p with acts := rest }.Kept S R := by
  obtain ⟨hs, hr, hset, haw⟩ := h
  rw [ha] at hs hr hset haw
  refine ⟨hs, hr, hset, ?_⟩
  intro id' r' hid
  apply (List.mem_cons.mp (haw id' r' hid)).resolve_left
  rintro ⟨⟩
  rw [hx] at hid
  cases hid
  cases hdone

lemma deliver (h : p.Kept S R) : (p.deliver m l).Kept S R := by
  refine ⟨?_, ?_, ?_, ?_⟩
  · rw [sent_deliver, acts_deliver]
    exact h.sends
  · rw [posted_deliver, acts_deliver]
    exact h.recvs
  · rw [length_slots_deliver, acts_deliver]
    exact h.settles
  · intro id r' hid
    rw [acts_deliver]
    apply h.awaited id r'
    rcases deliver_cases m l p with ⟨a, r, b, hslots, hd⟩ | hd
    · -- a receive that is still open was open before
      have hfill : a ++ .recv r (some m) :: b =
          (a ++ .recv r none :: b).set a.length (.recv r (some m)) := by simp
      rw [hd] at hid
      rw [hslots]
      by_cases hid' : id = a.length
      · simp [hid'] at hid
      · rwa [hfill, List.getElem?_set_ne (Ne.symm hid')] at hid
    · rw [hd] at hid
      exact hid

/-- With nothing left to do, all receives have got their messages. -/
lemma posted_le (h : p.Kept S R) (ha : p.acts = []) : R ≤ p.taken := by
  have hopen : ∀ x ∈ p.slots, x.isRecv → x.isGot := by
    intro x hx hr
    match x with
    | .recv r (some m) => rfl
    | .recv r none =>
      obtain ⟨id, hid⟩ := List.mem_iff_getElem?.mp hx
      have := h.awaited id r hid
      rw [ha] at this
      cases this
  have hcount : p.posted ≤ p.slots.countP Slot.isGot := List.countP_mono_left hopen
  have hR : p.posted = R := by simpa [ha] using h.recvs
  rw [← hR, taken, Nat.add_assoc]
  exact hcount.trans (Nat.le_add_right _ _)

end Party.Kept

/-! ### The calls -/

namespace MpiCall

lemma countP_asend (n : ℕ) (cs : List MpiCall) :
    (acts n cs).countP Act.isAsend = cs.countP sends + cs.countP isSrecv := by
  induction cs generalizing n with
  | nil => rfl
  | cons c cs ih =>
    cases c <;> simp [acts, List.countP_cons, Act.isAsend, sends, isSrecv, ih] <;> ring

lemma countP_arecv (n : ℕ) (cs : List MpiCall) :
    (acts n cs).countP Act.isArecv = cs.countP receives + cs.countP isSsend := by
  induction cs generalizing n with
  | nil => rfl
  | cons c cs ih =>
    cases c <;> simp [acts, List.countP_cons, Act.isArecv, receives, isSsend, ih] <;> ring

lemma wait_mem_acts {id : ℕ} (n : ℕ) {cs : List MpiCall} (h : wait id ∈ cs) :
    Act.wait id ∈ acts n cs := by
  induction cs generalizing n with
  | nil => cases h
  | cons c cs ih =>
    rcases List.mem_cons.mp h with rfl | hcs
    · exact List.mem_cons_self
    · cases c <;> simp [acts, ih _ hcs]

lemma Waited.settles {n : ℕ} {cs : List MpiCall} (h : Waited n cs) : Settles n (acts n cs) := by
  induction cs generalizing n with
  | nil => trivial
  | cons c cs ih =>
    cases c with
    | send data tag => exact ih h
    | isend data tag => exact ih h
    | ssend data tag => exact ⟨List.mem_cons_self, ih h⟩
    | recv nbytes tag => exact ⟨List.mem_cons_self, ih h⟩
    | irecv nbytes tag => exact ⟨wait_mem_acts _ h.1, ih h.2⟩
    | srecv nbytes tag =>
      exact ⟨List.mem_cons_of_mem _ (List.mem_cons_of_mem _ List.mem_cons_self), ih h⟩
    | wait id => exact ih h.2

end MpiCall

/-- The messages of the user from one process to the other, each with the receive that is there
for it. -/
structure Dialogue (ca cb : List MpiCall) (pairs : List (MpiCall × MpiCall)) : Prop where
  sends : pairs.map Prod.fst = ca.filter MpiCall.sends
  recvs : (pairs.map Prod.snd).Perm (cb.filter MpiCall.receives)
  answers : ∀ x ∈ pairs, x.1.Answers x.2

namespace Dialogue

variable {ca cb : List MpiCall} {pairs : List (MpiCall × MpiCall)}

lemma length_eq (h : Dialogue ca cb pairs) :
    ca.countP MpiCall.sends = cb.countP MpiCall.receives := by
  rw [List.countP_eq_length_filter, List.countP_eq_length_filter, ← h.sends, ← h.recvs.length_eq,
    List.length_map, List.length_map]

lemma countP_ssend (h : Dialogue ca cb pairs) :
    pairs.countP (fun x => x.1.isSsend) = ca.countP MpiCall.isSsend := by
  have hall : ca.countP MpiCall.isSsend = (ca.filter MpiCall.sends).countP MpiCall.isSsend := by
    rw [List.countP_filter]
    apply List.countP_congr
    intro c _
    cases c <;> simp [MpiCall.isSsend, MpiCall.sends]
  rw [hall, ← h.sends, List.countP_map]
  rfl

lemma countP_srecv (h : Dialogue ca cb pairs) :
    pairs.countP (fun x => x.2.isSrecv) = cb.countP MpiCall.isSrecv := by
  have hall : cb.countP MpiCall.isSrecv =
      (cb.filter MpiCall.receives).countP MpiCall.isSrecv := by
    rw [List.countP_filter]
    apply List.countP_congr
    intro c _
    cases c <;> simp [MpiCall.isSrecv, MpiCall.receives]
  rw [hall, ← h.recvs.countP_eq, List.countP_map]
  rfl

/-- A synchronous send that `MP_SRecv` is not there for leaves too few tokens. -/
lemma tokens_lt (h : Dialogue ca cb pairs)
    (hx : ∃ x ∈ pairs, x.1.isSsend = true ∧ x.2.isSrecv = false) :
    cb.countP MpiCall.isSrecv < ca.countP MpiCall.isSsend := by
  obtain ⟨x, hmem, hs, hr⟩ := hx
  rw [← h.countP_ssend, ← h.countP_srecv]
  have hle : ∀ l : List (MpiCall × MpiCall), (∀ y ∈ l, y ∈ pairs) →
      l.countP (fun x => x.2.isSrecv) ≤ l.countP (fun x => x.1.isSsend) :=
    fun l hl => List.countP_mono_left fun y hy => (h.answers y (hl y hy)).2
  obtain ⟨a, b, rfl⟩ := List.append_of_mem hmem
  have ha := hle a fun y hy => List.mem_append_left _ hy
  have hb := hle b fun y hy => List.mem_append_right _ (List.mem_cons_of_mem _ hy)
  simp only [List.countP_append, List.countP_cons, hs, hr, if_true]
  exact Nat.add_lt_add_of_le_of_lt ha (Nat.lt_succ_of_le hb)

end Dialogue

/-! ### Two processes -/

namespace Pair

variable {S R : Bool → ℕ} {s s' : Pair}

/-- What every step keeps. -/
structure Inv (S R : Bool → ℕ) (s : Pair) : Prop where
  kept : ∀ i, (s i).Kept (S i) (R i)
  flow : ∀ i, (s i).taken = (s !i).sent

/-- One process changes, and the number of its messages sent and taken does not. -/
lemma Inv.update {i : Bool} {p : Party} (h : Inv S R s) (hp : p.Kept (S i) (R i))
    (hsent : p.sent = (s i).sent) (htaken : p.taken = (s i).taken) :
    Inv S R (Function.update s i p) := by
  constructor
  · intro j
    by_cases hj : j = i
    · subst hj
      rwa [Function.update_self]
    · rw [Function.update_of_ne hj]
      exact h.kept j
  · intro j
    rcases Bool.eq_or_eq_not j i with rfl | rfl
    · rw [Function.update_self, Function.update_of_ne (Bool.not_ne_self j), htaken]
      exact h.flow j
    · rw [Function.update_of_ne (Bool.not_ne_self i), Bool.not_not, Function.update_self, hsent]
      simpa using h.flow (!i)

lemma Step.inv (h : Inv S R s) (hstep : Step s s') : Inv S R s' := by
  cases hstep with
  | asend i m rest ha =>
    have hne : i ≠ !i := Bool.self_ne_not i
    constructor
    · intro j
      rcases Bool.eq_or_eq_not j i with rfl | rfl
      · rw [Function.update_of_ne hne, Function.update_self]
        exact (h.kept j).send ha
      · rw [Function.update_self]
        exact (h.kept (!i)).arrive
    · -- the message is one more that was sent, and one more on the way
      intro j
      rcases Bool.eq_or_eq_not j i with rfl | rfl
      · rw [Function.update_of_ne hne, Function.update_self, Function.update_self,
          Party.taken_send]
        exact h.flow j
      · rw [Function.update_self, Bool.not_not, Function.update_of_ne hne, Function.update_self,
          Party.taken_arrive, Party.sent_send, h.flow, Bool.not_not]
  | arecv i r rest ha =>
    exact h.update ((h.kept i).post ha) Party.sent_post Party.taken_post
  | wait i id rest x ha hx hdone => exact h.update ((h.kept i).wait ha hx hdone) rfl rfl
  | deliver i m l ha =>
    exact h.update (h.kept i).deliver Party.sent_deliver (Party.taken_deliver ha)

/-- What is left to do: a message is sent and then delivered. -/
def weight (s : Pair) : ℕ :=
  (2 * (s false).acts.length + (s false).arriving.length) +
    (2 * (s true).acts.length + (s true).arriving.length)

lemma Step.weight_lt (hstep : Step s s') : s'.weight < s.weight := by
  cases hstep with
  | asend i m rest ha =>
    cases i <;> simp [weight, ha, Party.send, Party.arrive] <;> omega
  | arecv i r rest ha =>
    cases i <;> simp [weight, ha, Party.post]
  | wait i id rest x ha hx hdone =>
    cases i <;> simp [weight, ha]
  | deliver i m l ha =>
    cases i <;> simp [weight, ha, Party.acts_deliver, Party.arriving_deliver]

/-- A process that has to receive more messages than the other one sends is never done. -/
lemma Inv.not_complete (h : Inv S R s) {i : Bool} (hlt : S (!i) < R i) : ¬ s.Complete := by
  intro hc
  have hgot : R i ≤ (s i).taken := (h.kept i).posted_le (hc i)
  have hsent : (s !i).sent ≤ S (!i) := by
    rw [← (h.kept (!i)).sends]
    exact Nat.le_add_right _ _
  rw [h.flow i] at hgot
  exact absurd (hgot.trans hsent) (Nat.not_le_of_lt hlt)

variable {pa pb : List MpiCall}

/-- How many messages a process sends. -/
def sendCount (pa pb : List MpiCall) : Bool → ℕ
  | false => pa.countP MpiCall.sends + pa.countP MpiCall.isSrecv
  | true => pb.countP MpiCall.sends + pb.countP MpiCall.isSrecv

/-- How many messages a process receives. -/
def recvCount (pa pb : List MpiCall) : Bool → ℕ
  | false => pa.countP MpiCall.receives + pa.countP MpiCall.isSsend
  | true => pb.countP MpiCall.receives + pb.countP MpiCall.isSsend

lemma inv_start (ha : MpiCall.Waited 0 pa) (hb : MpiCall.Waited 0 pb) :
    Inv (sendCount pa pb) (recvCount pa pb) (start pa pb) := by
  have hkept : ∀ cs, MpiCall.Waited 0 cs →
      Party.Kept (cs.countP MpiCall.sends + cs.countP MpiCall.isSrecv)
        (cs.countP MpiCall.receives + cs.countP MpiCall.isSsend) ⟨MpiCall.acts 0 cs, [], [], []⟩ := by
    intro cs hcs
    refine ⟨?_, ?_, hcs.settles, ?_⟩
    · rw [← MpiCall.countP_asend 0]
      exact Nat.zero_add _
    · rw [← MpiCall.countP_arecv 0]
      exact Nat.zero_add _
    · intro id r hid
      cases hid
  constructor
  · intro i
    cases i with
    | false => exact hkept pa ha
    | true => exact hkept pb hb
  · intro i
    cases i <;> rfl

/-- With too few messages for one process, every run ends in a deadlock. -/
lemma inevitably_deadlocked (ha : MpiCall.Waited 0 pa) (hb : MpiCall.Waited 0 pb) {i : Bool}
    (hlt : sendCount pa pb (!i) < recvCount pa pb i) :
    Inevitably Step (fun s => ¬ s.Complete) (start pa pb) := by
  apply Inevitably.of_measure (Inv (sendCount pa pb) (recvCount pa pb)) weight
  · intro s hs
    exact Or.inr (hs.not_complete hlt)
  · intro s s' hs hstep
    exact ⟨hstep.inv hs, hstep.weight_lt⟩
  · exact inv_start ha hb

lemma not_synchronous_of_lt (ha : MpiCall.Waited 0 pa) (hb : MpiCall.Waited 0 pb) {i : Bool}
    (hlt : sendCount pa pb (!i) < recvCount pa pb i) : ¬ Synchronous pa pb := by
  intro h
  obtain ⟨s, hreach, hend, hc⟩ := (inevitably_deadlocked ha hb hlt).exists_end
  exact h.noDeadlock s hreach ⟨hc, hend⟩

/-- Wherever a synchronous send is answered by `MPI_Recv`, or by `MPI_Irecv` and `MPI_Wait`, the
processes end in a deadlock, whatever else they send each other. -/
theorem not_synchronous {ab ba : List (MpiCall × MpiCall)} (hab : Dialogue pa pb ab)
    (hba : Dialogue pb pa ba) (ha : MpiCall.Waited 0 pa) (hb : MpiCall.Waited 0 pb)
    (hx : ∃ x ∈ ab, x.1.isSsend = true ∧ x.2.isSrecv = false) : ¬ Synchronous pa pb := by
  have hlt : sendCount pa pb (!false) < recvCount pa pb false := by
    have htokens := hab.tokens_lt hx
    have hcount := hba.length_eq
    simp only [Bool.not_false, sendCount, recvCount, hcount]
    exact Nat.add_lt_add_left htokens _
  exact not_synchronous_of_lt ha hb hlt

/-- One byte, sent with `MPI_Ssend` and received with `MPI_Recv`. -/
theorem ssend_recv_deadlocks : ¬ Synchronous [.ssend [42] 7] [.recv 1 7] := by
  have hlt : sendCount [.ssend [42] 7] [.recv 1 7] (!false) <
      recvCount [.ssend [42] 7] [.recv 1 7] false := by decide
  exact not_synchronous_of_lt trivial trivial hlt

/-- The same with `MPI_Irecv` and `MPI_Wait`, and another message before it. -/
theorem not_synchronous_of_irecv :
    ¬ Synchronous [.send [1, 2] 3, .ssend [42] 7] [.irecv 1 7, .recv 2 3, .wait 0] := by
  have hab : Dialogue [.send [1, 2] 3, .ssend [42] 7] [.irecv 1 7, .recv 2 3, .wait 0]
      [(.send [1, 2] 3, .recv 2 3), (.ssend [42] 7, .irecv 1 7)] := by
    refine ⟨rfl, List.Perm.swap _ _ _, ?_⟩
    rintro x hx
    rcases List.mem_pair.mp hx with rfl | rfl
    · exact ⟨⟨_, _, rfl, rfl, by decide⟩, nofun⟩
    · exact ⟨⟨_, _, rfl, rfl, by decide⟩, nofun⟩
  have hba : Dialogue [.irecv 1 7, .recv 2 3, .wait 0] [.send [1, 2] 3, .ssend [42] 7] [] :=
    ⟨rfl, List.Perm.refl _, nofun⟩
  have hwaited : MpiCall.Waited 0 [.irecv 1 7, .recv 2 3, .wait 0] :=
    ⟨List.mem_cons_of_mem _ List.mem_cons_self, by decide, trivial⟩
  exact not_synchronous hab hba trivial hwaited
    ⟨_, List.mem_cons_of_mem _ List.mem_cons_self, rfl, rfl⟩

/-- With `MP_SRecv` for the receive the byte comes through. -/
example : ∃ s, Relation.ReflTransGen Step (start [.ssend [42] 7] [.srecv 1 7]) s ∧
    s.Complete ∧ (s true).slots.filterMap Slot.userData = [[42]] := by
  have hstart : Relation.ReflTransGen Step (start [.ssend [42] 7] [.srecv 1 7]) _ := .refl
  have hposted := (hstart.tail (.arecv true _ _ rfl)).tail (.arecv false _ _ rfl)
  have htoken := (hposted.tail (.asend true _ _ rfl)).tail (.deliver false _ _ rfl)
  have hsent := (htoken.tail (.wait false 0 _ _ rfl rfl rfl)).tail (.asend false _ _ rfl)
  have hdata := (hsent.tail (.deliver true _ _ rfl)).tail (.wait false 1 _ _ rfl rfl rfl)
  have hend := (hdata.tail (.wait true 1 _ _ rfl rfl rfl)).tail (.wait true 0 _ _ rfl rfl rfl)
  refine ⟨_, hend, ?_, rfl⟩
  intro i
  cases i <;> rfl

end Pair

end NetPipe.MpLite.Peers
