import Mathlib.Tactic

/-!
# Exchanges of messages

Processes run straight-line programs of sends, posted receives, waits and local work. A message
between two processes goes to the receive posted for it, whenever it arrives. If the sends of each
process meet the receives of the others, every run ends with the data that each program expects.
-/

namespace NetPipe.Exchange

/-- A posted receive: the source, what is expected, and where the data goes. -/
structure Posted (ι κ σ δ : Type*) where
  src : ι
  label : κ
  store : δ → σ → σ

/-- An action of a process. A wait is for the last receive that was posted. -/
inductive Act (ι κ σ δ : Type*) where
  | post (p : Posted ι κ σ δ)
  | send (dst : ι) (label : κ) (data : σ → δ)
  | wait
  | work (f : σ → σ)

/-- A process: its remaining actions, its memory, the last receive it posted, if it has not waited
for it, and whether the message has arrived. -/
structure Proc (ι κ σ δ : Type*) where
  todo : List (Act ι κ σ δ)
  mem : σ
  rid : Option (Posted ι κ σ δ)
  arrived : Bool

/-- The processes and the messages under way. -/
structure Net (ι κ σ δ : Type*) where
  proc : ι → Proc ι κ σ δ
  chan : ι → ι → List (κ × δ)

variable {ι κ σ δ : Type*} [DecidableEq ι]

namespace Net

/-- Change a process. -/
def setProc (i : ι) (p : Proc ι κ σ δ) (n : Net ι κ σ δ) : Net ι κ σ δ :=
  { n with proc := Function.update n.proc i p }

/-- Change the messages under way from `a` to `b`. -/
def setChan (a b : ι) (ms : List (κ × δ)) (n : Net ι κ σ δ) : Net ι κ σ δ :=
  { n with chan := Function.update n.chan a (Function.update (n.chan a) b ms) }

section

variable {n : Net ι κ σ δ} {i j a b a' b' : ι} {p : Proc ι κ σ δ} {ms : List (κ × δ)}

@[simp] lemma setProc_self : (n.setProc i p).proc i = p := Function.update_self _ _ _

@[simp] lemma setProc_of_ne (h : j ≠ i) : (n.setProc i p).proc j = n.proc j :=
  Function.update_of_ne h _ _

@[simp] lemma setProc_chan : (n.setProc i p).chan = n.chan := rfl

@[simp] lemma setChan_proc : (n.setChan a b ms).proc = n.proc := rfl

@[simp] lemma setChan_self : (n.setChan a b ms).chan a b = ms := by simp [setChan]

lemma setChan_of_ne (h : ¬ (a' = a ∧ b' = b)) : (n.setChan a b ms).chan a' b' = n.chan a' b' := by
  rcases eq_or_ne a' a with rfl | ha
  · simp [setChan, show b' ≠ b from fun hb => h ⟨rfl, hb⟩]
  · simp [setChan, ha]

end

end Net

/-- A step of the processes. Messages of one source are offered to a posted receive in the order in
which they were sent, and it takes the first one that it accepts. -/
inductive Step (accepts : κ → κ → Prop) : Net ι κ σ δ → Net ι κ σ δ → Prop where
  | post (n : Net ι κ σ δ) (i : ι) (p : Posted ι κ σ δ) (cs : List (Act ι κ σ δ))
      (h : (n.proc i).todo = .post p :: cs) :
      Step accepts n (n.setProc i ⟨cs, (n.proc i).mem, some p, false⟩)
  | send (n : Net ι κ σ δ) (i dst : ι) (l : κ) (data : σ → δ) (cs : List (Act ι κ σ δ))
      (h : (n.proc i).todo = .send dst l data :: cs) :
      Step accepts n ((n.setChan i dst (n.chan i dst ++ [(l, data (n.proc i).mem)])).setProc i
        { n.proc i with todo := cs })
  | wait (n : Net ι κ σ δ) (i : ι) (p : Posted ι κ σ δ) (cs : List (Act ι κ σ δ))
      (h : (n.proc i).todo = .wait :: cs) (hrid : (n.proc i).rid = some p)
      (harrived : (n.proc i).arrived = true) :
      Step accepts n (n.setProc i ⟨cs, (n.proc i).mem, none, false⟩)
  | work (n : Net ι κ σ δ) (i : ι) (f : σ → σ) (cs : List (Act ι κ σ δ))
      (h : (n.proc i).todo = .work f :: cs) :
      Step accepts n (n.setProc i { n.proc i with todo := cs, mem := f (n.proc i).mem })
  | deliver (n : Net ι κ σ δ) (i : ι) (p : Posted ι κ σ δ) (before after : List (κ × δ))
      (m : κ × δ) (hrid : (n.proc i).rid = some p) (harrived : (n.proc i).arrived = false)
      (hchan : n.chan p.src i = before ++ m :: after)
      (hbefore : ∀ m' ∈ before, ¬ accepts p.label m'.1) (hm : accepts p.label m.1) :
      Step accepts n ((n.setChan p.src i (before ++ after)).setProc i
        { n.proc i with mem := p.store m.2 (n.proc i).mem, arrived := true })

/-- The processes before their first action. -/
def init (script : ι → List (Act ι κ σ δ)) (start : ι → σ) : Net ι κ σ δ where
  proc i := ⟨script i, start i, none, false⟩
  chan _ _ := []

/-! ### What the programs expect -/

/-- The labels of the messages to `b`. -/
def sendsTo (b : ι) (cs : List (Act ι κ σ δ)) : List κ :=
  cs.filterMap fun c => match c with
    | .send dst l _ => if dst = b then some l else none
    | _ => none

/-- The labels of the receives from `a`. -/
def postsFrom (a : ι) (cs : List (Act ι κ σ δ)) : List κ :=
  cs.filterMap fun c => match c with
    | .post p => if p.src = a then some p.label else none
    | _ => none

/-- The receives that a program posts. -/
def posts (cs : List (Act ι κ σ δ)) : List (Posted ι κ σ δ) :=
  cs.filterMap fun c => match c with
    | .post p => some p
    | _ => none

/-- The number of waits of a program. -/
def waits (cs : List (Act ι κ σ δ)) : ℕ :=
  cs.countP fun c => match c with
    | .wait => true
    | _ => false

section

variable {a b : ι} {l : κ} {data : σ → δ} {f : σ → σ} {p : Posted ι κ σ δ}
  {cs cs' : List (Act ι κ σ δ)}

@[simp] lemma sendsTo_nil : sendsTo b ([] : List (Act ι κ σ δ)) = [] := rfl

@[simp] lemma sendsTo_post : sendsTo b (.post p :: cs) = sendsTo b cs := rfl

@[simp] lemma sendsTo_wait : sendsTo b (.wait :: cs) = sendsTo b cs := rfl

@[simp] lemma sendsTo_work : sendsTo b (.work f :: cs) = sendsTo b cs := rfl

@[simp] lemma sendsTo_send : sendsTo b (.send a l data :: cs) =
    if a = b then l :: sendsTo b cs else sendsTo b cs := by
  by_cases h : a = b <;> simp [sendsTo, h]

@[simp] lemma sendsTo_append : sendsTo b (cs ++ cs') = sendsTo b cs ++ sendsTo b cs' :=
  List.filterMap_append

@[simp] lemma postsFrom_nil : postsFrom a ([] : List (Act ι κ σ δ)) = [] := rfl

@[simp] lemma postsFrom_send : postsFrom a (.send b l data :: cs) = postsFrom a cs := rfl

@[simp] lemma postsFrom_wait : postsFrom a (.wait :: cs) = postsFrom a cs := rfl

@[simp] lemma postsFrom_work : postsFrom a (.work f :: cs) = postsFrom a cs := rfl

@[simp] lemma postsFrom_post : postsFrom a (.post p :: cs) =
    if p.src = a then p.label :: postsFrom a cs else postsFrom a cs := by
  by_cases h : p.src = a <;> simp [postsFrom, h]

omit [DecidableEq ι] in
@[simp] lemma posts_post : posts (.post p :: cs) = p :: posts cs := rfl

omit [DecidableEq ι] in
@[simp] lemma posts_wait : posts (.wait :: cs) = posts cs := rfl

omit [DecidableEq ι] in
@[simp] lemma waits_post : waits (.post p :: cs) = waits cs := rfl

omit [DecidableEq ι] in
@[simp] lemma waits_wait : waits (.wait :: cs) = waits cs + 1 := by simp [waits]

@[simp] lemma postsFrom_append : postsFrom a (cs ++ cs') = postsFrom a cs ++ postsFrom a cs' :=
  List.filterMap_append

end

/-- Process `i` runs its actions from the memory `s`, with `p` posted: a receive is posted, then
waited for, it brings the data `msg`, and what is sent is the data `msg` too, whether or not the
posted receive has arrived. In the end the memory is as `final` says. -/
def Conforms (msg : ι → ι → κ → δ) (i : ι) (final : σ → Prop) :
    List (Act ι κ σ δ) → Option (Posted ι κ σ δ) → σ → Prop
  | [], none, s => final s
  | .post p :: cs, none, s => Conforms msg i final cs (some p) s
  | .send dst l data :: cs, none, s => data s = msg i dst l ∧ Conforms msg i final cs none s
  | .send dst l data :: cs, some p, s => data s = msg i dst l ∧
      data (p.store (msg p.src i p.label) s) = msg i dst l ∧ Conforms msg i final cs (some p) s
  | .wait :: cs, some p, s => Conforms msg i final cs none (p.store (msg p.src i p.label) s)
  | .work f :: cs, none, s => Conforms msg i final cs none (f s)
  | _, _, _ => False

/-- When the sends and waits take place: in a round the sends come before the wait. -/
def keys (round : κ → ℕ) : List (Act ι κ σ δ) → Option (Posted ι κ σ δ) → List ℕ
  | [], _ => []
  | .post p :: cs, _ => keys round cs (some p)
  | .send _ l _ :: cs, p => 2 * round l :: keys round cs p
  | .wait :: cs, some p => (2 * round p.label + 1) :: keys round cs none
  | .wait :: cs, none => keys round cs none
  | .work _ :: cs, p => keys round cs p

/-- The sends of the programs meet their receives. -/
structure Meets (round : κ → ℕ) (msg : ι → ι → κ → δ) (final : ι → σ → Prop)
    (script : ι → List (Act ι κ σ δ)) (start : ι → σ) : Prop where
  conforms : ∀ i, Conforms msg i (final i) (script i) none (start i)
  labels : ∀ a b, sendsTo b (script a) = postsFrom a (script b)
  ordered : ∀ i, (keys round (script i) none).Pairwise (· ≤ ·)

/-! ### The invariant -/

/-- The labels of the receive from `a` that has not arrived. -/
def pendingFrom (a : ι) (p : Proc ι κ σ δ) : List κ :=
  match p.rid with
  | some q => if q.src = a ∧ p.arrived = false then [q.label] else []
  | none => []

/-- The memory of process `i` is the expected one, with the message in it if it has arrived. -/
def Expected (msg : ι → ι → κ → δ) (i : ι) (final : σ → Prop) (p : Proc ι κ σ δ) : Prop :=
  ∃ s, Conforms msg i final p.todo p.rid s ∧
    match p.rid with
    | some q => p.mem = if p.arrived then q.store (msg q.src i q.label) s else s
    | none => p.mem = s

/-- The invariant of a run. -/
structure Inv (round : κ → ℕ) (msg : ι → ι → κ → δ) (final : ι → σ → Prop) (n : Net ι κ σ δ) :
    Prop where
  expected : ∀ i, Expected msg i (final i) (n.proc i)
  data : ∀ a b, ∀ m ∈ n.chan a b, m.2 = msg a b m.1
  labels : ∀ a b, (n.chan a b).map Prod.fst ++ sendsTo b (n.proc a).todo =
    pendingFrom a (n.proc b) ++ postsFrom a (n.proc b).todo
  ordered : ∀ i, (keys round (n.proc i).todo (n.proc i).rid).Pairwise (· ≤ ·)

variable {round : κ → ℕ} {msg : ι → ι → κ → δ} {final : ι → σ → Prop} {n n' : Net ι κ σ δ}
  {accepts : κ → κ → Prop}

lemma Meets.inv_init {script : ι → List (Act ι κ σ δ)} {start : ι → σ}
    (h : Meets round msg final script start) : Inv round msg final (init script start) := by
  refine ⟨fun i => ⟨start i, h.conforms i, rfl⟩, ?_, ?_, h.ordered⟩
  · intro a b m hm
    exact absurd hm List.not_mem_nil
  · intro a b
    simpa [init, pendingFrom] using h.labels a b

/-! ### Steps -/

/-- Process `i` changes, and the messages on one channel. -/
lemma Inv.change (h : Inv round msg final n) {i : ι} {p : Proc ι κ σ δ} {c d : ι}
    {ms : List (κ × δ)} (hexp : Expected msg i (final i) p) (hdata : ∀ m ∈ ms, m.2 = msg c d m.1)
    (hkeys : (keys round p.todo p.rid).Pairwise (· ≤ ·))
    (hlabels : ∀ a b, ((n.setChan c d ms).chan a b).map Prod.fst ++
        sendsTo b ((n.setProc i p).proc a).todo =
      pendingFrom a ((n.setProc i p).proc b) ++ postsFrom a ((n.setProc i p).proc b).todo) :
    Inv round msg final ((n.setChan c d ms).setProc i p) := by
  refine ⟨?_, ?_, hlabels, ?_⟩
  · intro j
    rcases eq_or_ne j i with rfl | hj
    · simpa using hexp
    · simpa [hj] using h.expected j
  · intro a b m hm
    by_cases hab : a = c ∧ b = d
    · obtain ⟨rfl, rfl⟩ := hab
      exact hdata m (by simpa using hm)
    · rw [Net.setProc_chan, Net.setChan_of_ne hab] at hm
      exact h.data a b m hm
  · intro j
    rcases eq_or_ne j i with rfl | hj
    · simpa using hkeys
    · simpa [hj] using h.ordered j

/-- Process `i` moves on without a message. -/
lemma Inv.move (h : Inv round msg final n) {i : ι} {p : Proc ι κ σ δ}
    (hexp : Expected msg i (final i) p) (hkeys : (keys round p.todo p.rid).Pairwise (· ≤ ·))
    (hsends : ∀ b, sendsTo b p.todo = sendsTo b (n.proc i).todo)
    (hposts : ∀ a, pendingFrom a p ++ postsFrom a p.todo =
      pendingFrom a (n.proc i) ++ postsFrom a (n.proc i).todo) :
    Inv round msg final (n.setProc i p) := by
  have hself : n.setChan i i (n.chan i i) = n := by
    rw [Net.setChan, Function.update_eq_self, Function.update_eq_self]
  have hchange := h.change (c := i) (d := i) hexp (h.data i i) hkeys ?_
  · rwa [hself] at hchange
  · intro a b
    rw [hself]
    have hs : sendsTo b ((n.setProc i p).proc a).todo = sendsTo b (n.proc a).todo := by
      rcases eq_or_ne a i with rfl | ha
      · simpa using hsends b
      · simp [ha]
    have hp : pendingFrom a ((n.setProc i p).proc b) ++ postsFrom a ((n.setProc i p).proc b).todo =
        pendingFrom a (n.proc b) ++ postsFrom a (n.proc b).todo := by
      rcases eq_or_ne b i with rfl | hb
      · simpa using hposts a
      · simp [hb]
    rw [hs, hp]
    exact h.labels a b

lemma Inv.post (h : Inv round msg final n) {i : ι} {p : Posted ι κ σ δ} {cs : List (Act ι κ σ δ)}
    (htodo : (n.proc i).todo = .post p :: cs) :
    Inv round msg final (n.setProc i ⟨cs, (n.proc i).mem, some p, false⟩) := by
  obtain ⟨s, hconf, hmem⟩ := h.expected i
  have hord := h.ordered i
  rw [htodo] at hconf hord
  cases hrid : (n.proc i).rid with
  | some q =>
    rw [hrid] at hconf
    exact hconf.elim
  | none =>
    rw [hrid] at hconf hmem
    refine h.move ⟨s, hconf, by simpa using hmem⟩ (by simpa [keys] using hord) ?_ ?_
    · intro b
      simp [htodo, sendsTo]
    · intro a
      by_cases ha : p.src = a <;> simp [htodo, hrid, pendingFrom, postsFrom, ha]

lemma Inv.wait (h : Inv round msg final n) {i : ι} {p : Posted ι κ σ δ} {cs : List (Act ι κ σ δ)}
    (htodo : (n.proc i).todo = .wait :: cs) (hrid : (n.proc i).rid = some p)
    (harrived : (n.proc i).arrived = true) :
    Inv round msg final (n.setProc i ⟨cs, (n.proc i).mem, none, false⟩) := by
  obtain ⟨s, hconf, hmem⟩ := h.expected i
  have hord := h.ordered i
  rw [htodo, hrid] at hconf hord
  simp only [hrid, harrived, if_true] at hmem
  refine h.move ⟨_, hconf, hmem⟩ (List.pairwise_cons.mp hord).2 ?_ ?_
  · intro b
    simp [htodo, sendsTo]
  · intro a
    simp [htodo, hrid, harrived, pendingFrom, postsFrom]

lemma Inv.work (h : Inv round msg final n) {i : ι} {f : σ → σ} {cs : List (Act ι κ σ δ)}
    (htodo : (n.proc i).todo = .work f :: cs) :
    Inv round msg final
      (n.setProc i { n.proc i with todo := cs, mem := f (n.proc i).mem }) := by
  obtain ⟨s, hconf, hmem⟩ := h.expected i
  have hord := h.ordered i
  rw [htodo] at hconf hord
  cases hrid : (n.proc i).rid with
  | some q =>
    rw [hrid] at hconf
    exact hconf.elim
  | none =>
    rw [hrid] at hconf hord hmem
    refine h.move ⟨f s, ?_, ?_⟩ (by simpa [hrid, keys] using hord) ?_ ?_
    · rw [hrid]
      exact hconf
    · simp only [hrid]
      exact congrArg f hmem
    · intro b
      simp [htodo, sendsTo]
    · intro a
      simp [htodo, hrid, pendingFrom, postsFrom]

omit [DecidableEq ι] in
/-- A process sends the expected data. -/
lemma Expected.send {i dst : ι} {l : κ} {data : σ → δ} {cs : List (Act ι κ σ δ)} {fin : σ → Prop}
    {p : Proc ι κ σ δ} (h : Expected msg i fin p) (htodo : p.todo = .send dst l data :: cs) :
    data p.mem = msg i dst l ∧ Expected msg i fin { p with todo := cs } := by
  obtain ⟨s, hconf, hmem⟩ := h
  rw [htodo] at hconf
  cases hrid : p.rid with
  | none =>
    rw [hrid] at hconf hmem
    exact ⟨hmem ▸ hconf.1, s, hconf.2, hmem⟩
  | some q =>
    rw [hrid] at hconf hmem
    refine ⟨?_, s, hconf.2.2, hmem⟩
    rw [hmem]
    split_ifs
    · exact hconf.2.1
    · exact hconf.1

lemma Inv.send (h : Inv round msg final n) {i dst : ι} {l : κ} {data : σ → δ}
    {cs : List (Act ι κ σ δ)} (htodo : (n.proc i).todo = .send dst l data :: cs) :
    Inv round msg final ((n.setChan i dst (n.chan i dst ++ [(l, data (n.proc i).mem)])).setProc i
      { n.proc i with todo := cs }) := by
  obtain ⟨hdata, hexp⟩ := (h.expected i).send htodo
  have hord := h.ordered i
  rw [htodo] at hord
  refine h.change hexp ?_ (List.pairwise_cons.mp hord).2 ?_
  · intro m hm
    rcases List.mem_append.mp hm with hm | hm
    · exact h.data i dst m hm
    · rw [List.mem_singleton.mp hm]
      exact hdata
  · intro a b
    have hp : pendingFrom a ((n.setProc i { n.proc i with todo := cs }).proc b) ++
        postsFrom a ((n.setProc i { n.proc i with todo := cs }).proc b).todo =
        pendingFrom a (n.proc b) ++ postsFrom a (n.proc b).todo := by
      rcases eq_or_ne b i with rfl | hb
      · simp [htodo, pendingFrom, postsFrom]
      · simp [hb]
    rw [hp, ← h.labels a b]
    rcases eq_or_ne a i with rfl | ha
    · rcases eq_or_ne b dst with rfl | hb
      · simp [htodo, sendsTo]
      · rw [Net.setChan_of_ne (by simp [hb])]
        simp [htodo, sendsTo, hb.symm]
    · rw [Net.setChan_of_ne (by simp [ha])]
      simp [ha]

/-- The messages under way to a process that waits, and those still to be sent to it, begin with the
expected one. -/
lemma Inv.first (h : Inv round msg final n) {i : ι} {p : Posted ι κ σ δ}
    (hrid : (n.proc i).rid = some p) (harrived : (n.proc i).arrived = false) :
    (n.chan p.src i).map Prod.fst ++ sendsTo i (n.proc p.src).todo =
      p.label :: postsFrom p.src (n.proc i).todo := by
  simpa [pendingFrom, hrid, harrived] using h.labels p.src i

/-- A receive takes the first message of its source, which is the one it expects. -/
lemma Inv.takes (h : Inv round msg final n) (hacc : ∀ l, accepts l l) {i : ι}
    {p : Posted ι κ σ δ} {before after : List (κ × δ)} {m : κ × δ}
    (hrid : (n.proc i).rid = some p) (harrived : (n.proc i).arrived = false)
    (hchan : n.chan p.src i = before ++ m :: after)
    (hbefore : ∀ m' ∈ before, ¬ accepts p.label m'.1) : before = [] ∧ m.1 = p.label := by
  have hfirst := h.first hrid harrived
  rw [hchan] at hfirst
  rcases before with _ | ⟨m', before⟩
  · exact ⟨rfl, (List.cons.inj hfirst).1⟩
  · have hlabel : m'.1 = p.label := (List.cons.inj hfirst).1
    exact absurd (hlabel ▸ hacc m'.1) (hbefore m' List.mem_cons_self)

/-- A receive takes its message. -/
lemma Inv.deliver (h : Inv round msg final n) (hacc : ∀ l, accepts l l) {i : ι}
    {p : Posted ι κ σ δ} {before after : List (κ × δ)} {m : κ × δ}
    (hrid : (n.proc i).rid = some p) (harrived : (n.proc i).arrived = false)
    (hchan : n.chan p.src i = before ++ m :: after)
    (hbefore : ∀ m' ∈ before, ¬ accepts p.label m'.1) :
    Inv round msg final ((n.setChan p.src i (before ++ after)).setProc i
      { n.proc i with mem := p.store m.2 (n.proc i).mem, arrived := true }) := by
  have hfirst := h.first hrid harrived
  obtain ⟨rfl, -⟩ := h.takes hacc hrid harrived hchan hbefore
  rw [List.nil_append] at hchan ⊢
  rw [hchan] at hfirst
  obtain ⟨hlabel, hrest⟩ := List.cons.inj hfirst
  have hmem : m ∈ n.chan p.src i := by simp [hchan]
  have hdata : m.2 = msg p.src i p.label := hlabel ▸ h.data p.src i m hmem
  refine h.change ?_ ?_ (h.ordered i) ?_
  · obtain ⟨s, hconf, hs⟩ := h.expected i
    rw [hrid] at hconf hs
    refine ⟨s, by rwa [hrid], ?_⟩
    simp only [harrived, Bool.false_eq_true, if_false] at hs
    simp [hrid, hs, hdata]
  · intro m' hm'
    exact h.data p.src i m' (by simp [hchan, hm'])
  · intro a b
    set q : Proc ι κ σ δ := { n.proc i with mem := p.store m.2 (n.proc i).mem, arrived := true }
    have hs : sendsTo b ((n.setProc i q).proc a).todo = sendsTo b (n.proc a).todo := by
      rcases eq_or_ne a i with rfl | ha
      · simp [q]
      · simp [ha]
    have hlabels := h.labels a b
    rw [hs]
    rcases eq_or_ne b i with rfl | hb
    · rcases eq_or_ne a p.src with rfl | ha
      · simpa [q, pendingFrom, hrid] using hrest
      · rw [Net.setChan_of_ne (by simp [ha])]
        simpa [q, pendingFrom, hrid, ha.symm] using hlabels
    · rw [Net.setChan_of_ne (by simp [hb])]
      simpa [hb] using hlabels

/-- Every step keeps the invariant. -/
lemma Inv.step (h : Inv round msg final n) (hacc : ∀ l, accepts l l) (hs : Step accepts n n') :
    Inv round msg final n' := by
  cases hs with
  | post i p cs htodo => exact h.post htodo
  | send i dst l data cs htodo => exact h.send htodo
  | wait i p cs htodo hrid harrived => exact h.wait htodo hrid harrived
  | work i f cs htodo => exact h.work htodo
  | deliver i p before after m hrid harrived hchan hbefore hm =>
    exact h.deliver hacc hrid harrived hchan hbefore

/-- The invariant holds in every run. -/
lemma Meets.inv {script : ι → List (Act ι κ σ δ)} {start : ι → σ}
    (h : Meets round msg final script start) (hacc : ∀ l, accepts l l)
    (hrun : Relation.ReflTransGen (Step accepts) (init script start) n) :
    Inv round msg final n := by
  induction hrun with
  | refl => exact h.inv_init
  | tail _ hs ih => exact ih.step hacc hs

/-! ### Results -/

/-- When all processes have ended, their memory is as expected and no message is left over. -/
lemma Inv.finished (h : Inv round msg final n) (hend : ∀ i, (n.proc i).todo = []) :
    (∀ i, final i (n.proc i).mem) ∧ ∀ a b, n.chan a b = [] := by
  have hidle : ∀ i, (n.proc i).rid = none ∧ final i (n.proc i).mem := by
    intro i
    obtain ⟨s, hconf, hmem⟩ := h.expected i
    rw [hend i] at hconf
    cases hrid : (n.proc i).rid with
    | some q =>
      rw [hrid] at hconf
      exact hconf.elim
    | none =>
      rw [hrid] at hconf hmem
      exact ⟨rfl, hmem ▸ hconf⟩
  refine ⟨fun i => (hidle i).2, fun a b => ?_⟩
  have hlabels := h.labels a b
  simpa [hend, sendsTo, postsFrom, pendingFrom, (hidle b).1] using hlabels

/-- A process waits only for a receive that it has posted. -/
lemma Inv.posted (h : Inv round msg final n) {i : ι} {cs : List (Act ι κ σ δ)}
    (htodo : (n.proc i).todo = .wait :: cs) : (n.proc i).rid ≠ none := by
  obtain ⟨s, hconf, -⟩ := h.expected i
  intro hrid
  rw [htodo, hrid] at hconf
  exact hconf

/-- The sends of a program are among its keys. -/
lemma mem_keys {b : ι} {l : κ} {cs : List (Act ι κ σ δ)}
    (h : l ∈ sendsTo b cs) (p : Option (Posted ι κ σ δ)) : 2 * round l ∈ keys round cs p := by
  induction cs generalizing p with
  | nil => exact absurd h List.not_mem_nil
  | cons c cs ih =>
    cases c with
    | post q => exact ih (by simpa [sendsTo] using h) _
    | work f => exact ih (by simpa [sendsTo] using h) _
    | wait =>
      have h' : l ∈ sendsTo b cs := by simpa [sendsTo] using h
      cases p with
      | none => exact ih h' _
      | some q => exact List.mem_cons_of_mem _ (ih h' _)
    | send dst l' data =>
      by_cases hl : l = l'
      · exact hl ▸ List.mem_cons_self
      · refine List.mem_cons_of_mem _ (ih ?_ _)
        by_cases hb : dst = b
        · simpa [sendsTo, hb, hl] using h
        · simpa [sendsTo, hb] using h

/-- If a process waits, some process can move. -/
lemma Inv.waiting (h : Inv round msg final n) (hacc : ∀ l, accepts l l) (r : ℕ) :
    ∀ {i : ι} {p : Posted ι κ σ δ} {cs : List (Act ι κ σ δ)},
      (n.proc i).todo = .wait :: cs → (n.proc i).rid = some p → round p.label = r →
      ∃ n', Step accepts n n' := by
  -- the sender of the message that is waited for can only wait for one of an earlier round
  induction r using Nat.strong_induction_on with
  | _ r ih =>
    intro i p cs htodo hrid hr
    cases harrived : (n.proc i).arrived with
    | true => exact ⟨_, .wait n i p cs htodo hrid harrived⟩
    | false =>
      have hfirst := h.first hrid harrived
      cases hchan : n.chan p.src i with
      | cons m after =>
        rw [hchan] at hfirst
        have hlabel : m.1 = p.label := (List.cons.inj hfirst).1
        refine ⟨_, .deliver n i p [] after m hrid harrived hchan (by simp) ?_⟩
        rw [hlabel]
        exact hacc p.label
      | nil =>
        rw [hchan, List.map_nil, List.nil_append] at hfirst
        have hsend : p.label ∈ sendsTo i (n.proc p.src).todo := by simp [hfirst]
        cases hsrc : (n.proc p.src).todo with
        | nil => simp [hsrc, sendsTo] at hsend
        | cons c cs' =>
          cases c with
          | post q => exact ⟨_, .post n p.src q cs' hsrc⟩
          | send dst l data => exact ⟨_, .send n p.src dst l data cs' hsrc⟩
          | work f => exact ⟨_, .work n p.src f cs' hsrc⟩
          | wait =>
            obtain ⟨q, hq⟩ := Option.ne_none_iff_exists'.mp (h.posted hsrc)
            have hord := h.ordered p.src
            rw [hsrc] at hord hsend
            rw [hq] at hord
            have hkey : 2 * round p.label ∈ keys round cs' none :=
              mem_keys (by simpa [sendsTo] using hsend) none
            have hle := (List.pairwise_cons.mp hord).1 _ hkey
            exact ih (round q.label) (by omega) hsrc hq rfl

/-- As long as a process has something to do, some process can move. -/
lemma Inv.progress (h : Inv round msg final n) (hacc : ∀ l, accepts l l) {i : ι}
    (htodo : (n.proc i).todo ≠ []) : ∃ n', Step accepts n n' := by
  obtain ⟨c, cs, hcs⟩ := List.exists_cons_of_ne_nil htodo
  cases c with
  | post q => exact ⟨_, .post n i q cs hcs⟩
  | send dst l data => exact ⟨_, .send n i dst l data cs hcs⟩
  | work f => exact ⟨_, .work n i f cs hcs⟩
  | wait =>
    obtain ⟨p, hp⟩ := Option.ne_none_iff_exists'.mp (h.posted hcs)
    exact h.waiting hacc _ hcs hp rfl

/-! ### Termination -/

/-- The steps that a process has still to make. -/
def Proc.load (p : Proc ι κ σ δ) : ℕ :=
  2 * p.todo.length + if p.rid.isSome ∧ p.arrived = false then 1 else 0

/-- A step takes from the load of one process. -/
lemma Step.load_lt (hs : Step accepts n n') :
    ∃ i p, n'.proc = Function.update n.proc i p ∧ p.load < (n.proc i).load := by
  cases hs with
  | post i p cs htodo =>
    refine ⟨i, _, rfl, ?_⟩
    simp [Proc.load, htodo]
    omega
  | send i dst l data cs htodo =>
    refine ⟨i, _, rfl, ?_⟩
    simp [Proc.load, htodo]
  | wait i p cs htodo hrid harrived =>
    refine ⟨i, _, rfl, ?_⟩
    simp [Proc.load, htodo, hrid, harrived]
  | work i f cs htodo =>
    refine ⟨i, _, rfl, ?_⟩
    simp [Proc.load, htodo]
  | deliver i p before after m hrid harrived hchan hbefore hm =>
    refine ⟨i, _, rfl, ?_⟩
    simp [Proc.load, hrid, harrived]

/-- A process with nothing to do has no load. -/
lemma Inv.load_eq_zero (h : Inv round msg final n) {i : ι} (htodo : (n.proc i).todo = []) :
    (n.proc i).load = 0 := by
  obtain ⟨s, hconf, -⟩ := h.expected i
  rw [htodo] at hconf
  cases hrid : (n.proc i).rid with
  | some q =>
    rw [hrid] at hconf
    exact hconf.elim
  | none => simp [Proc.load, htodo, hrid]

/-- Every run of finitely many processes can be completed. -/
lemma Inv.completes (h : Inv round msg final n) (hacc : ∀ l, accepts l l) {I : Finset ι}
    (hI : ∀ i ∉ I, (n.proc i).todo = []) :
    ∃ n', Relation.ReflTransGen (Step accepts) n n' ∧ ∀ i, (n'.proc i).todo = [] := by
  induction hm : ∑ i ∈ I, (n.proc i).load using Nat.strong_induction_on generalizing n with
  | _ m ih =>
    by_cases hend : ∀ i, (n.proc i).todo = []
    · exact ⟨n, .refl, hend⟩
    obtain ⟨j, hj⟩ := not_forall.mp hend
    obtain ⟨n', hs⟩ := h.progress hacc hj
    obtain ⟨i, p, hproc, hlt⟩ := hs.load_lt
    have hload : ∀ k, (n'.proc k).load ≤ (n.proc k).load := by
      intro k
      rw [hproc]
      rcases eq_or_ne k i with rfl | hk
      · simpa using hlt.le
      · simp [hk]
    have hi : i ∈ I := by
      by_contra hi
      rw [h.load_eq_zero (hI i hi)] at hlt
      exact Nat.not_lt_zero _ hlt
    have hsum : ∑ k ∈ I, (n'.proc k).load < m := by
      rw [← hm]
      refine Finset.sum_lt_sum (fun k _ => hload k) ⟨i, hi, ?_⟩
      simpa [hproc] using hlt
    have hI' : ∀ k ∉ I, (n'.proc k).todo = [] := by
      intro k hk
      have hki : k ≠ i := fun hki => hk (hki ▸ hi)
      simpa [hproc, hki] using hI k hk
    obtain ⟨n'', hrun, hend'⟩ := ih _ hsum (h.step hacc hs) hI' rfl
    exact ⟨n'', .head hs hrun, hend'⟩

lemma Meets.completes {script : ι → List (Act ι κ σ δ)} {start : ι → σ}
    (h : Meets round msg final script start) (hacc : ∀ l, accepts l l) {I : Finset ι}
    (hI : ∀ i ∉ I, script i = [])
    (hrun : Relation.ReflTransGen (Step accepts) (init script start) n) :
    ∃ n', Relation.ReflTransGen (Step accepts) n n' ∧ ∀ i, (n'.proc i).todo = [] := by
  refine (h.inv hacc hrun).completes hacc (I := I) ?_
  -- a process with nothing to do never gets anything to do
  induction hrun with
  | refl => exact hI
  | tail hrun hs ih =>
    intro i hi
    have hload := (h.inv hacc hrun).load_eq_zero (ih i hi)
    obtain ⟨j, p, hproc, hlt⟩ := hs.load_lt
    have hij : i ≠ j := by
      rintro rfl
      rw [hload] at hlt
      exact Nat.not_lt_zero _ hlt
    simpa [hproc, hij] using ih i hi

end NetPipe.Exchange
