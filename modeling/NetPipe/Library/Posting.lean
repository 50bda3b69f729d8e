import NetPipe.Library.Exchange
import NetPipe.Library.Inevitable

/-!
# Exchanges with several receives posted

Processes run straight-line programs of sends, posted receives and waits, where a wait names the
receive that it is for, so that several receives may be posted at a time. A message goes to the first
posted receive that accepts it. If the labels of the messages between two processes are distinct and
a receive accepts no other label than its own, every message goes to the receive that is meant for
it, in whatever order they are posted and sent.
-/

namespace NetPipe.Posting

open NetPipe.Exchange (Posted)

/-- An action of a process. A wait names the source and the label of the receive. -/
inductive Act (ι κ σ δ : Type*) where
  | post (p : Posted ι κ σ δ)
  | send (dst : ι) (label : κ) (data : σ → δ)
  | wait (src : ι) (label : κ)

/-- A process: its remaining actions, its memory, the posted receives without a message in the order
in which they were posted, and those with one that it has not waited for. -/
structure Proc (ι κ σ δ : Type*) where
  todo : List (Act ι κ σ δ)
  mem : σ
  pending : List (Posted ι κ σ δ)
  arrived : List (ι × κ)

/-- The processes and the messages under way. -/
structure Net (ι κ σ δ : Type*) where
  proc : ι → Proc ι κ σ δ
  chan : ι → ι → List (κ × δ)

variable {ι κ σ δ : Type*} [DecidableEq ι] [DecidableEq κ]

namespace Net

/-- Change a process. -/
def setProc (i : ι) (p : Proc ι κ σ δ) (n : Net ι κ σ δ) : Net ι κ σ δ :=
  { n with proc := Function.update n.proc i p }

/-- Change the messages under way from `a` to `b`. -/
def setChan (a b : ι) (ms : List (κ × δ)) (n : Net ι κ σ δ) : Net ι κ σ δ :=
  { n with chan := Function.update n.chan a (Function.update (n.chan a) b ms) }

section

variable {n : Net ι κ σ δ} {i j a b a' b' : ι} {p : Proc ι κ σ δ} {ms : List (κ × δ)}

omit [DecidableEq κ]

@[simp] lemma setProc_proc : (n.setProc i p).proc j = if j = i then p else n.proc j :=
  Function.update_apply ..

@[simp] lemma setProc_chan : (n.setProc i p).chan = n.chan := rfl

@[simp] lemma setChan_proc : (n.setChan a b ms).proc = n.proc := rfl

@[simp] lemma setChan_chan :
    (n.setChan a b ms).chan a' b' = if a' = a ∧ b' = b then ms else n.chan a' b' := by
  rcases eq_or_ne a' a with rfl | ha
  · simp [setChan, Function.update_apply]
  · simp [setChan, ha]

end

end Net

/-- A step of the processes. A message goes to the receive posted first among those of its source
that accept it, and a receive takes the first message that it accepts. -/
inductive Step (accepts : κ → κ → Prop) : Net ι κ σ δ → Net ι κ σ δ → Prop where
  | post (n : Net ι κ σ δ) (i : ι) (p : Posted ι κ σ δ) (cs : List (Act ι κ σ δ))
      (h : (n.proc i).todo = .post p :: cs) :
      Step accepts n (n.setProc i
        { n.proc i with todo := cs, pending := (n.proc i).pending ++ [p] })
  | send (n : Net ι κ σ δ) (i dst : ι) (l : κ) (data : σ → δ) (cs : List (Act ι κ σ δ))
      (h : (n.proc i).todo = .send dst l data :: cs) :
      Step accepts n ((n.setChan i dst (n.chan i dst ++ [(l, data (n.proc i).mem)])).setProc i
        { n.proc i with todo := cs })
  | wait (n : Net ι κ σ δ) (i src : ι) (l : κ) (cs : List (Act ι κ σ δ))
      (h : (n.proc i).todo = .wait src l :: cs) (harrived : (src, l) ∈ (n.proc i).arrived) :
      Step accepts n (n.setProc i
        { n.proc i with todo := cs, arrived := (n.proc i).arrived.erase (src, l) })
  | deliver (n : Net ι κ σ δ) (i : ι) (p : Posted ι κ σ δ) (ps ps' : List (Posted ι κ σ δ))
      (before after : List (κ × δ)) (m : κ × δ) (hpending : (n.proc i).pending = ps ++ p :: ps')
      (hchan : n.chan p.src i = before ++ m :: after) (hm : accepts p.label m.1)
      (hbefore : ∀ m' ∈ before, ¬ accepts p.label m'.1)
      (hps : ∀ p' ∈ ps, p'.src = p.src → ¬ accepts p'.label m.1) :
      Step accepts n ((n.setChan p.src i (before ++ after)).setProc i
        { n.proc i with
          mem := p.store m.2 (n.proc i).mem
          pending := ps ++ ps'
          arrived := (p.src, p.label) :: (n.proc i).arrived })

/-- The processes before their first action. -/
def init (script : ι → List (Act ι κ σ δ)) (start : ι → σ) : Net ι κ σ δ where
  proc i := ⟨script i, start i, [], []⟩
  chan _ _ := []

/-! ### What the programs expect -/

/-- The source and the label of a receive. -/
def idOf (p : Posted ι κ σ δ) : ι × κ := (p.src, p.label)

/-- The labels of the messages to `b`. -/
def sendsTo (b : ι) (cs : List (Act ι κ σ δ)) : List κ :=
  cs.filterMap fun c => match c with
    | .send dst l _ => if dst = b then some l else none
    | _ => none

/-- The receives that a program posts. -/
def postIds (cs : List (Act ι κ σ δ)) : List (ι × κ) :=
  cs.filterMap fun c => match c with
    | .post p => some (idOf p)
    | _ => none

/-- The receives that it waits for. -/
def waitIds (cs : List (Act ι κ σ δ)) : List (ι × κ) :=
  cs.filterMap fun c => match c with
    | .wait src l => some (src, l)
    | _ => none

/-- The labels of the receives from `a`. -/
def labelsFrom (a : ι) (ids : List (ι × κ)) : List κ :=
  ids.filterMap fun id => if id.1 = a then some id.2 else none

/-- When the sends and waits take place: in a round the sends come before the waits. -/
def keys (round : κ → ℕ) (cs : List (Act ι κ σ δ)) : List ℕ :=
  cs.filterMap fun c => match c with
    | .send _ l _ => some (2 * round l)
    | .wait _ l => some (2 * round l + 1)
    | .post _ => none

/-- A receive is not posted behind the wait for it. -/
def PostedFirst : List (Act ι κ σ δ) → Prop
  | [] => True
  | .wait src l :: cs => (src, l) ∉ postIds cs ∧ PostedFirst cs
  | .post _ :: cs | .send _ _ _ :: cs => PostedFirst cs

/-- The sends of the programs meet their receives. `holds i R s` says that `s` is the memory of process
`i` when the messages of the receives `R` have arrived. -/
structure Meets (accepts : κ → κ → Prop) (round : κ → ℕ) (msg : ι → ι → κ → δ)
    (holds : ι → List (ι × κ) → σ → Prop) (script : ι → List (Act ι κ σ δ)) (start : ι → σ) :
    Prop where
  start : ∀ i, holds i [] (start i)
  store : ∀ i p, .post p ∈ script i → ∀ R s, holds i R s →
    holds i (idOf p :: R) (p.store (msg p.src i p.label) s)
  data : ∀ i dst l data, .send dst l data ∈ script i → ∀ R s, holds i R s → data s = msg i dst l
  waits : ∀ i, (postIds (script i)).Perm (waitIds (script i))
  labels : ∀ a b, (sendsTo b (script a)).Perm (labelsFrom a (postIds (script b)))
  nodup : ∀ a b, (sendsTo b (script a)).Nodup
  exact : ∀ a b, ∀ l ∈ sendsTo b (script a), ∀ m ∈ sendsTo b (script a), accepts l m ↔ l = m
  ordered : ∀ i, (keys round (script i)).Pairwise (· ≤ ·)
  posted : ∀ i, PostedFirst (script i)

section

variable {a b : ι} {l : κ} {data : σ → δ} {p : Posted ι κ σ δ} {cs cs' : List (Act ι κ σ δ)}
  {ids ids' : List (ι × κ)} {id : ι × κ} {round : κ → ℕ}

omit [DecidableEq κ]

@[simp] lemma sendsTo_nil : sendsTo b ([] : List (Act ι κ σ δ)) = [] := rfl

@[simp] lemma sendsTo_post : sendsTo b (.post p :: cs) = sendsTo b cs := rfl

@[simp] lemma sendsTo_wait : sendsTo b (.wait a l :: cs) = sendsTo b cs := rfl

@[simp] lemma sendsTo_send : sendsTo b (.send a l data :: cs) =
    if a = b then l :: sendsTo b cs else sendsTo b cs := by
  by_cases h : a = b <;> simp [sendsTo, h]

@[simp] lemma sendsTo_append : sendsTo b (cs ++ cs') = sendsTo b cs ++ sendsTo b cs' :=
  List.filterMap_append

@[simp] lemma labelsFrom_nil : labelsFrom a ([] : List (ι × κ)) = [] := rfl

@[simp] lemma labelsFrom_cons : labelsFrom a (id :: ids) =
    if id.1 = a then id.2 :: labelsFrom a ids else labelsFrom a ids := by
  by_cases h : id.1 = a <;> simp [labelsFrom, h]

@[simp] lemma labelsFrom_append : labelsFrom a (ids ++ ids') = labelsFrom a ids ++ labelsFrom a ids' :=
  List.filterMap_append

lemma mem_labelsFrom : l ∈ labelsFrom a ids ↔ (a, l) ∈ ids := by
  constructor
  · intro h
    obtain ⟨id, hid, hl⟩ := List.mem_filterMap.mp h
    split_ifs at hl with ha
    rw [← ha, ← Option.some.inj hl]
    exact hid
  · exact fun h => List.mem_filterMap.mpr ⟨_, h, if_pos rfl⟩

lemma labelsFrom_perm (h : ids.Perm ids') : (labelsFrom a ids).Perm (labelsFrom a ids') :=
  h.filterMap _

omit [DecidableEq ι]

@[simp] lemma postIds_nil : postIds ([] : List (Act ι κ σ δ)) = [] := rfl

@[simp] lemma postIds_post : postIds (.post p :: cs) = idOf p :: postIds cs := rfl

@[simp] lemma postIds_send : postIds (.send b l data :: cs) = postIds cs := rfl

@[simp] lemma postIds_wait : postIds (.wait a l :: cs) = postIds cs := rfl

@[simp] lemma postIds_append : postIds (cs ++ cs') = postIds cs ++ postIds cs' :=
  List.filterMap_append

@[simp] lemma waitIds_nil : waitIds ([] : List (Act ι κ σ δ)) = [] := rfl

@[simp] lemma waitIds_post : waitIds (.post p :: cs) = waitIds cs := rfl

@[simp] lemma waitIds_send : waitIds (.send b l data :: cs) = waitIds cs := rfl

@[simp] lemma waitIds_wait : waitIds (.wait a l :: cs) = (a, l) :: waitIds cs := rfl

@[simp] lemma waitIds_append : waitIds (cs ++ cs') = waitIds cs ++ waitIds cs' :=
  List.filterMap_append

@[simp] lemma keys_nil : keys round ([] : List (Act ι κ σ δ)) = [] := rfl

@[simp] lemma keys_post : keys round (.post p :: cs) = keys round cs := rfl

@[simp] lemma keys_send : keys round (.send b l data :: cs) = 2 * round l :: keys round cs := rfl

@[simp] lemma keys_wait : keys round (.wait a l :: cs) = (2 * round l + 1) :: keys round cs := rfl

@[simp] lemma keys_append : keys round (cs ++ cs') = keys round cs ++ keys round cs' :=
  List.filterMap_append

end

omit [DecidableEq κ] in
/-- The sends of a program are among its keys. -/
lemma mem_keys {b : ι} {l : κ} {cs : List (Act ι κ σ δ)} (round : κ → ℕ) (h : l ∈ sendsTo b cs) :
    2 * round l ∈ keys round cs := by
  obtain ⟨c, hc, hl⟩ := List.mem_filterMap.mp h
  refine List.mem_filterMap.mpr ⟨c, hc, ?_⟩
  cases c with
  | post p => cases hl
  | wait src l' => cases hl
  | send dst l' data =>
    dsimp only at hl
    split_ifs at hl
    rw [Option.some.inj hl]

/-! ### The invariant -/

/-- The receives of a process that have still to get a message. -/
def Proc.openIds (p : Proc ι κ σ δ) : List (ι × κ) := p.pending.map idOf ++ postIds p.todo

/-- The labels of the messages from `a` to `b` that are under way or still to be sent. -/
def Net.coming (n : Net ι κ σ δ) (a b : ι) : List κ :=
  (n.chan a b).map Prod.fst ++ sendsTo b (n.proc a).todo

/-- The invariant of one process: what is left of its program, the receives in `R` that have got their
messages, and those it has still to wait for. -/
structure Local (round : κ → ℕ) (holds : List (ι × κ) → σ → Prop) (program : List (Act ι κ σ δ))
    (p : Proc ι κ σ δ) : Prop where
  suffix : p.todo <:+ program
  pending : ∀ q ∈ p.pending, .post q ∈ program
  mem : ∃ R, holds R p.mem ∧ (R ++ p.openIds).Perm (postIds program)
  waits : (p.arrived ++ p.openIds).Perm (waitIds p.todo)
  ordered : (keys round p.todo).Pairwise (· ≤ ·)
  posted : PostedFirst p.todo

/-- The invariant of a run of the programs. -/
structure Inv (round : κ → ℕ) (msg : ι → ι → κ → δ) (holds : ι → List (ι × κ) → σ → Prop)
    (script : ι → List (Act ι κ σ δ)) (n : Net ι κ σ δ) : Prop where
  each : ∀ i, Local round (holds i) (script i) (n.proc i)
  labels : ∀ a b, (n.coming a b).Perm (labelsFrom a (n.proc b).openIds)
  sub : ∀ a b, (n.coming a b).Subperm (sendsTo b (script a))
  data : ∀ a b, ∀ m ∈ n.chan a b, m.2 = msg a b m.1

variable {accepts : κ → κ → Prop} {round : κ → ℕ} {msg : ι → ι → κ → δ}
  {holds : ι → List (ι × κ) → σ → Prop} {script : ι → List (Act ι κ σ δ)} {start : ι → σ}
  {n n' : Net ι κ σ δ} {i : ι} {cs : List (Act ι κ σ δ)} {p : Proc ι κ σ δ} {q : Posted ι κ σ δ}

omit [DecidableEq κ] in
lemma Meets.inv_init (h : Meets accepts round msg holds script start) :
    Inv round msg holds script (init script start) := by
  refine ⟨fun i => ⟨List.suffix_rfl, by simp [init], ⟨[], h.start i, ?_⟩, ?_, h.ordered i, h.posted i⟩,
    ?_, ?_, by simp [init]⟩
  · simp [init, Proc.openIds]
  · simpa [init, Proc.openIds] using h.waits i
  · intro a b
    simpa [init, Proc.openIds, Net.coming] using h.labels a b
  · intro a b
    simpa [init, Net.coming] using List.Subperm.refl _

/-! ### Steps -/

omit [DecidableEq κ] in
/-- A step that neither sends nor receives a message for good. -/
lemma Inv.move (h : Inv round msg holds script n) (hlocal : Local round (holds i) (script i) p)
    (hproc : n'.proc = Function.update n.proc i p) (hopen : p.openIds = (n.proc i).openIds)
    (hcoming : ∀ a b, n'.coming a b = n.coming a b)
    (hdata : ∀ a b, ∀ m ∈ n'.chan a b, m.2 = msg a b m.1) : Inv round msg holds script n' := by
  refine ⟨fun j => ?_, fun a b => ?_, fun a b => hcoming a b ▸ h.sub a b, hdata⟩
  · rw [hproc, Function.update_apply]
    split_ifs with hj
    · exact hj ▸ hlocal
    · exact h.each j
  · have hsame : (n'.proc b).openIds = (n.proc b).openIds := by
      rw [hproc, Function.update_apply]
      split_ifs with hb
      · rw [hopen, hb]
      · rfl
    rw [hcoming, hsame]
    exact h.labels a b

omit [DecidableEq κ] in
/-- What is still to come does not depend on the other processes. -/
lemma coming_setProc (htodo : ∀ b, sendsTo b p.todo = sendsTo b (n.proc i).todo) (a b : ι) :
    (n.setProc i p).coming a b = n.coming a b := by
  rw [Net.coming, Net.coming, Net.setProc_proc, Net.setProc_chan]
  split_ifs with ha
  · rw [htodo, ha]
  · rfl

omit [DecidableEq κ] in
lemma Inv.post (h : Inv round msg holds script n) (htodo : (n.proc i).todo = .post q :: cs) :
    Inv round msg holds script (n.setProc i
      { n.proc i with todo := cs, pending := (n.proc i).pending ++ [q] }) := by
  obtain ⟨hsuffix, hpending, hmem, hwaits, hordered, hposted⟩ := h.each i
  have hopen : (n.proc i).openIds = ((n.proc i).pending ++ [q]).map idOf ++ postIds cs := by
    rw [Proc.openIds, htodo, postIds_post, List.map_append, List.map_singleton, List.append_assoc]
    rfl
  rw [hopen] at hmem hwaits
  rw [htodo] at hsuffix hwaits hordered hposted
  refine h.move ⟨(List.suffix_cons _ _).trans hsuffix, fun q' hq' => ?_, hmem, hwaits, hordered,
    hposted⟩ rfl hopen.symm (coming_setProc fun b => by rw [htodo, sendsTo_post]) h.data
  rcases List.mem_append.mp hq' with hq' | hq'
  · exact hpending q' hq'
  · rw [List.mem_singleton.mp hq']
    exact hsuffix.subset List.mem_cons_self

lemma Inv.wait {src : ι} {l : κ} (h : Inv round msg holds script n)
    (htodo : (n.proc i).todo = .wait src l :: cs) (harrived : (src, l) ∈ (n.proc i).arrived) :
    Inv round msg holds script (n.setProc i
      { n.proc i with todo := cs, arrived := (n.proc i).arrived.erase (src, l) }) := by
  obtain ⟨hsuffix, hpending, hmem, hwaits, hordered, hposted⟩ := h.each i
  have hopen : (n.proc i).openIds = (n.proc i).pending.map idOf ++ postIds cs := by
    rw [Proc.openIds, htodo, postIds_wait]
  rw [hopen] at hmem hwaits
  rw [htodo] at hsuffix hwaits hordered hposted
  refine h.move (p := { n.proc i with todo := cs, arrived := (n.proc i).arrived.erase (src, l) })
    ⟨(List.suffix_cons _ _).trans hsuffix, hpending, hmem, ?_, (List.pairwise_cons.mp hordered).2,
      hposted.2⟩ rfl hopen.symm (coming_setProc fun b => by rw [htodo, sendsTo_wait]) h.data
  refine List.Perm.cons_inv (List.Perm.trans ?_ hwaits)
  rw [← List.cons_append]
  exact (List.perm_cons_erase harrived).symm.append_right _

omit [DecidableEq κ] in
lemma Inv.send {dst : ι} {l : κ} {data : σ → δ} (h : Inv round msg holds script n)
    (hmeets : Meets accepts round msg holds script start)
    (htodo : (n.proc i).todo = .send dst l data :: cs) :
    Inv round msg holds script ((n.setChan i dst (n.chan i dst ++ [(l, data (n.proc i).mem)])).setProc
      i { n.proc i with todo := cs }) := by
  obtain ⟨hsuffix, hpending, hmem, hwaits, hordered, hposted⟩ := h.each i
  have hopen : (n.proc i).openIds = (n.proc i).pending.map idOf ++ postIds cs := by
    rw [Proc.openIds, htodo, postIds_send]
  rw [hopen] at hwaits
  rw [htodo] at hsuffix hwaits hordered hposted
  obtain ⟨R, hR, hperm⟩ := hmem
  have hdata := hmeets.data i dst l data (hsuffix.subset List.mem_cons_self) R _ hR
  rw [hopen] at hperm
  refine h.move (p := { n.proc i with todo := cs })
    ⟨(List.suffix_cons _ _).trans hsuffix, hpending, ⟨R, hR, hperm⟩, hwaits,
      (List.pairwise_cons.mp hordered).2, hposted⟩ rfl hopen.symm (fun a b => ?_) fun a b m hm => ?_
  · simp only [Net.coming, Net.setProc_proc, Net.setProc_chan, Net.setChan_chan, Net.setChan_proc]
    rcases eq_or_ne a i with rfl | ha
    · rcases eq_or_ne b dst with rfl | hb
      · simp [htodo]
      · simp [htodo, hb, hb.symm]
    · simp [ha]
  · rw [Net.setProc_chan, Net.setChan_chan] at hm
    split_ifs at hm with hab
    · obtain ⟨rfl, rfl⟩ := hab
      rcases List.mem_append.mp hm with hm | hm
      · exact h.data _ _ m hm
      · rw [List.mem_singleton.mp hm]
        exact hdata
    · exact h.data a b m hm

/-! ### Matching -/

omit [DecidableEq κ] in
lemma Inv.mem_sendsTo {a b : ι} {l : κ} (h : Inv round msg holds script n)
    (hl : l ∈ n.coming a b) : l ∈ sendsTo b (script a) :=
  (h.sub a b).subset hl

omit [DecidableEq κ] in
/-- A message for a posted receive is still to come. -/
lemma Inv.coming_of_pending (h : Inv round msg holds script n) (hq : q ∈ (n.proc i).pending) :
    q.label ∈ n.coming q.src i := by
  refine (h.labels q.src i).mem_iff.mpr (mem_labelsFrom.mpr ?_)
  exact List.mem_append_left _ (List.mem_map_of_mem hq)

omit [DecidableEq κ] in
/-- A receive takes the message that is meant for it. -/
lemma Inv.takes {m : κ × δ} (h : Inv round msg holds script n)
    (hmeets : Meets accepts round msg holds script start) (hq : q ∈ (n.proc i).pending)
    (hm : m ∈ n.chan q.src i) (haccepts : accepts q.label m.1) : m.1 = q.label := by
  have hlabel := h.mem_sendsTo (h.coming_of_pending hq)
  have hcoming : m.1 ∈ n.coming q.src i := List.mem_append_left _ (List.mem_map_of_mem hm)
  exact ((hmeets.exact _ _ _ hlabel _ (h.mem_sendsTo hcoming)).mp haccepts).symm

omit [DecidableEq κ] in
lemma Inv.deliver {ps ps' : List (Posted ι κ σ δ)} {before after : List (κ × δ)} {m : κ × δ}
    (h : Inv round msg holds script n) (hmeets : Meets accepts round msg holds script start)
    (hpending : (n.proc i).pending = ps ++ q :: ps')
    (hchan : n.chan q.src i = before ++ m :: after) (hm : accepts q.label m.1) :
    Inv round msg holds script ((n.setChan q.src i (before ++ after)).setProc i
      { n.proc i with
        mem := q.store m.2 (n.proc i).mem
        pending := ps ++ ps'
        arrived := (q.src, q.label) :: (n.proc i).arrived }) := by
  obtain ⟨hsuffix, hpend, ⟨R, hR, hperm⟩, hwaits, hordered, hposted⟩ := h.each i
  have hq : q ∈ (n.proc i).pending := by simp [hpending]
  have hmem : m ∈ n.chan q.src i := by simp [hchan]
  have hlabel := h.takes hmeets hq hmem hm
  have hdata : m.2 = msg q.src i q.label := hlabel ▸ h.data _ _ m hmem
  set p : Proc ι κ σ δ := { n.proc i with
    mem := q.store m.2 (n.proc i).mem
    pending := ps ++ ps'
    arrived := (q.src, q.label) :: (n.proc i).arrived } with hp
  -- the receive leaves the open ones
  have hopen : (n.proc i).openIds.Perm (idOf q :: p.openIds) := by
    simp only [Proc.openIds, hp, hpending, List.map_append, List.map_cons, List.append_assoc,
      List.cons_append]
    exact List.perm_middle
  have hcoming : ∀ a b, (n.coming a b).Perm
      (if a = q.src ∧ b = i then q.label :: ((n.setChan q.src i (before ++ after)).setProc i p).coming a b
      else ((n.setChan q.src i (before ++ after)).setProc i p).coming a b) := by
    intro a b
    have htodo : ∀ a, (((n.setChan q.src i (before ++ after)).setProc i p).proc a).todo =
        (n.proc a).todo := by
      intro a
      rw [Net.setProc_proc]
      split_ifs with ha
      · rw [ha]
      · rfl
    simp only [Net.coming, htodo, Net.setProc_chan, Net.setChan_chan]
    split_ifs with hab
    · obtain ⟨rfl, rfl⟩ := hab
      rw [hchan, ← hlabel, List.map_append, List.map_cons, List.map_append, List.append_assoc,
        List.append_assoc, List.cons_append]
      exact List.perm_middle
    · exact List.Perm.refl _
  refine ⟨fun j => ?_, fun a b => ?_, fun a b => ?_, fun a b m' hm' => ?_⟩
  · rw [Net.setProc_proc]
    split_ifs with hj
    · subst hj
      refine ⟨hsuffix, fun q' hq' => hpend q' ?_, ⟨idOf q :: R, ?_, ?_⟩, ?_, hordered, hposted⟩
      · rw [hpending]
        rcases List.mem_append.mp hq' with hq' | hq' <;> simp [hq']
      · rw [show p.mem = q.store m.2 (n.proc j).mem from rfl, hdata]
        exact hmeets.store j q (hpend q hq) R _ hR
      · exact (List.perm_middle.symm.trans (hopen.symm.append_left R)).trans hperm
      · exact (List.perm_middle.symm.trans (hopen.symm.append_left _)).trans hwaits
    · exact h.each j
  · have hlabels := (hcoming a b).symm.trans (h.labels a b)
    rw [Net.setProc_proc]
    split_ifs with hb
    · subst hb
      have hfrom := hlabels.trans (labelsFrom_perm hopen)
      rw [labelsFrom_cons] at hfrom
      by_cases ha : a = q.src
      · rw [if_pos ⟨ha, rfl⟩, if_pos (show (idOf q).1 = a from ha.symm)] at hfrom
        exact hfrom.cons_inv
      · rwa [if_neg fun hab => ha hab.1, if_neg (show (idOf q).1 ≠ a from Ne.symm ha)] at hfrom
    · rwa [if_neg fun hab => hb hab.2] at hlabels
  · have hsub := (hcoming a b).symm.subperm.trans (h.sub a b)
    split_ifs at hsub with hab
    · exact (List.sublist_cons_self _ _).subperm.trans hsub
    · exact hsub
  · rw [Net.setProc_chan, Net.setChan_chan] at hm'
    split_ifs at hm' with hab
    · obtain ⟨rfl, rfl⟩ := hab
      refine h.data _ _ m' ?_
      rw [hchan]
      rcases List.mem_append.mp hm' with hm' | hm' <;> simp [hm']
    · exact h.data a b m' hm'

/-- Every step keeps the invariant. -/
lemma Inv.step (h : Inv round msg holds script n)
    (hmeets : Meets accepts round msg holds script start) (hs : Step accepts n n') :
    Inv round msg holds script n' := by
  cases hs with
  | post i p cs htodo => exact h.post htodo
  | send i dst l data cs htodo => exact h.send hmeets htodo
  | wait i src l cs htodo harrived => exact h.wait htodo harrived
  | deliver i p ps ps' before after m hpending hchan hm hbefore hps =>
    exact h.deliver hmeets hpending hchan hm

/-- The invariant holds in every run. -/
lemma Meets.inv (h : Meets accepts round msg holds script start)
    (hrun : Relation.ReflTransGen (Step accepts) (init script start) n) :
    Inv round msg holds script n := by
  induction hrun with
  | refl => exact h.inv_init
  | tail _ hs ih => exact ih.step h hs

/-! ### Results -/

omit [DecidableEq κ] in
/-- When all processes have ended, all messages are in their memories and none is left over. -/
lemma Inv.finished (h : Inv round msg holds script n) (hend : ∀ i, (n.proc i).todo = []) :
    (∀ i, (n.proc i).pending = [] ∧ ∃ R, R.Perm (postIds (script i)) ∧ holds i R (n.proc i).mem) ∧
      ∀ a b, n.chan a b = [] := by
  have hopen : ∀ i, (n.proc i).openIds = [] := by
    intro i
    have hwaits := (h.each i).waits
    rw [hend i, waitIds_nil, List.perm_nil, List.append_eq_nil_iff] at hwaits
    exact hwaits.2
  refine ⟨fun i => ⟨?_, ?_⟩, fun a b => ?_⟩
  · have hnil := hopen i
    rw [Proc.openIds, List.append_eq_nil_iff, List.map_eq_nil_iff] at hnil
    exact hnil.1
  · obtain ⟨R, hR, hperm⟩ := (h.each i).mem
    rw [hopen i, List.append_nil] at hperm
    exact ⟨R, hperm, hR⟩
  · have hlabels := h.labels a b
    rw [hopen b, labelsFrom_nil, List.perm_nil, Net.coming, List.append_eq_nil_iff,
      List.map_eq_nil_iff] at hlabels
    exact hlabels.1

omit [DecidableEq κ] in
/-- A receive that is waited for is posted, and has its message or not. -/
lemma Inv.waiting_cases {src : ι} {l : κ} (h : Inv round msg holds script n)
    (htodo : (n.proc i).todo = .wait src l :: cs) :
    (src, l) ∈ (n.proc i).arrived ∨ ∃ q ∈ (n.proc i).pending, idOf q = (src, l) := by
  have hlocal := h.each i
  have hwaits := hlocal.waits
  have hposted := hlocal.posted
  rw [htodo] at hposted
  rw [Proc.openIds, htodo, waitIds_wait, postIds_wait] at hwaits
  have hmem := hwaits.mem_iff.mpr (List.mem_cons_self (a := (src, l)))
  rcases List.mem_append.mp hmem with hmem | hmem
  · exact Or.inl hmem
  · refine Or.inr (List.mem_map.mp ((List.mem_append.mp hmem).resolve_right hposted.1))

omit [DecidableEq κ] in
/-- The labels that are to come are distinct. -/
lemma Inv.coming_nodup (h : Inv round msg holds script n)
    (hmeets : Meets accepts round msg holds script start) (a b : ι) : (n.coming a b).Nodup := by
  obtain ⟨l, hperm, hsublist⟩ := h.sub a b
  exact hperm.nodup_iff.mp (hsublist.nodup (hmeets.nodup a b))

/-- A message that is under way can be received. -/
lemma Inv.delivers {m : κ × δ} (h : Inv round msg holds script n)
    (hmeets : Meets accepts round msg holds script start) (hq : q ∈ (n.proc i).pending)
    (hm : m ∈ n.chan q.src i) (hlabel : m.1 = q.label) : ∃ n', Step accepts n n' := by
  obtain ⟨ps, ps', hpending⟩ := List.append_of_mem hq
  obtain ⟨before, after, hchan⟩ := List.append_of_mem hm
  have hnodup := h.coming_nodup hmeets q.src i
  have hsent := h.mem_sendsTo (h.coming_of_pending hq)
  refine ⟨_, .deliver n i q ps ps' before after m hpending hchan ?_ ?_ ?_⟩
  · rw [hlabel]
    exact (hmeets.exact _ _ _ hsent _ hsent).mpr rfl
  · intro m' hm' haccepts
    have hlabel' := h.takes hmeets hq (by simp [hchan, hm']) haccepts
    rw [Net.coming, hchan, List.map_append, List.append_assoc, List.nodup_append] at hnodup
    refine hnodup.2.2 _ (List.mem_map_of_mem hm') m.1 ?_ (hlabel'.trans hlabel.symm)
    simp
  · intro p' hp' hsrc haccepts
    have hlabel' := h.takes hmeets (q := p') (by simp [hpending, hp']) (hsrc ▸ hm) haccepts
    have hopen := (h.labels q.src i).nodup_iff.mp hnodup
    rw [Proc.openIds, hpending, List.map_append, List.append_assoc, labelsFrom_append,
      List.nodup_append] at hopen
    refine hopen.2.2 q.label (mem_labelsFrom.mpr ?_) q.label (mem_labelsFrom.mpr ?_) rfl
    · refine List.mem_map.mpr ⟨p', hp', Prod.ext hsrc ?_⟩
      exact hlabel'.symm.trans hlabel
    · exact List.mem_cons_self

/-- If a process waits, some process can move. -/
lemma Inv.waiting (h : Inv round msg holds script n)
    (hmeets : Meets accepts round msg holds script start) (r : ℕ) :
    ∀ {i src : ι} {l : κ} {cs : List (Act ι κ σ δ)},
      (n.proc i).todo = .wait src l :: cs → round l = r → ∃ n', Step accepts n n' := by
  -- the sender of the message that is waited for can only wait for one of an earlier round
  induction r using Nat.strong_induction_on with
  | _ r ih =>
    intro i src l cs htodo hr
    rcases h.waiting_cases htodo with harrived | ⟨q, hq, hid⟩
    · exact ⟨_, .wait n i src l cs htodo harrived⟩
    obtain ⟨rfl, rfl⟩ := Prod.mk.inj hid
    rcases List.mem_append.mp (h.coming_of_pending hq) with hmem | hsend
    · obtain ⟨m, hm, hlabel⟩ := List.mem_map.mp hmem
      exact h.delivers hmeets hq hm hlabel
    · cases hsrc : (n.proc q.src).todo with
      | nil => simp [hsrc] at hsend
      | cons c cs' =>
        cases c with
        | post p => exact ⟨_, .post n q.src p cs' hsrc⟩
        | send dst l' data => exact ⟨_, .send n q.src dst l' data cs' hsrc⟩
        | wait src' l' =>
          have hordered := (h.each q.src).ordered
          rw [hsrc] at hordered hsend
          rw [keys_wait, List.pairwise_cons] at hordered
          have hle := hordered.1 _ (mem_keys round (by simpa using hsend))
          exact ih (round l') (by omega) hsrc rfl

/-- As long as a process has something to do, some process can move. -/
lemma Inv.progress (h : Inv round msg holds script n)
    (hmeets : Meets accepts round msg holds script start) (htodo : (n.proc i).todo ≠ []) :
    ∃ n', Step accepts n n' := by
  obtain ⟨c, cs, hcs⟩ := List.exists_cons_of_ne_nil htodo
  cases c with
  | post p => exact ⟨_, .post n i p cs hcs⟩
  | send dst l data => exact ⟨_, .send n i dst l data cs hcs⟩
  | wait src l => exact h.waiting hmeets _ hcs rfl

/-! ### Termination -/

/-- The steps that a process has still to make. -/
def Proc.load (p : Proc ι κ σ δ) : ℕ := 2 * p.todo.length + p.pending.length

/-- A step takes from the load of one process. -/
lemma Step.load_lt (hs : Step accepts n n') :
    ∃ i p, n'.proc = Function.update n.proc i p ∧ p.load < (n.proc i).load := by
  cases hs with
  | post i p cs htodo =>
    refine ⟨i, _, rfl, ?_⟩
    simp [Proc.load, htodo]
    omega
  | send i dst l data cs htodo =>
    refine ⟨i, _, rfl, ?_⟩
    simp [Proc.load, htodo]
  | wait i src l cs htodo harrived =>
    refine ⟨i, _, rfl, ?_⟩
    simp [Proc.load, htodo]
  | deliver i p ps ps' before after m hpending hchan hm hbefore hps =>
    refine ⟨i, _, rfl, ?_⟩
    simp [Proc.load, hpending]

omit [DecidableEq κ] in
/-- A process with nothing to do has no load. -/
lemma Inv.load_eq_zero (h : Inv round msg holds script n) (htodo : (n.proc i).todo = []) :
    (n.proc i).load = 0 := by
  have hwaits := (h.each i).waits
  rw [htodo, waitIds_nil, List.perm_nil, List.append_eq_nil_iff, Proc.openIds,
    List.append_eq_nil_iff, List.map_eq_nil_iff] at hwaits
  rw [Proc.load, htodo, hwaits.2.1]
  rfl

omit [DecidableEq κ] in
/-- A process that has no program has never anything to do. -/
lemma Inv.idle (h : Inv round msg holds script n) (hnil : script i = []) :
    (n.proc i).todo = [] :=
  List.suffix_nil.mp (hnil ▸ (h.each i).suffix)

/-- The sends of programs of `n` parts meet their receives if those of each part do, where the labels
tell to which part they belong. -/
structure PartsMeet (accepts : κ → κ → Prop) (round : κ → ℕ) (msg : ι → ι → κ → δ)
    (holds : ι → List (ι × κ) → σ → Prop) (part : κ → ℕ) (n : ℕ)
    (body : ι → ℕ → List (Act ι κ σ δ)) (start : ι → σ) : Prop where
  start : ∀ i, holds i [] (start i)
  store : ∀ i, ∀ k < n, ∀ p, .post p ∈ body i k → ∀ R s, holds i R s →
    holds i (idOf p :: R) (p.store (msg p.src i p.label) s)
  data : ∀ i, ∀ k < n, ∀ dst l data, .send dst l data ∈ body i k → ∀ R s, holds i R s →
    data s = msg i dst l
  waits : ∀ i, ∀ k < n, (postIds (body i k)).Perm (waitIds (body i k))
  labels : ∀ a b, ∀ k < n, (sendsTo b (body a k)).Perm (labelsFrom a (postIds (body b k)))
  nodup : ∀ a b, ∀ k < n, (sendsTo b (body a k)).Nodup
  part : ∀ a b, ∀ k < n, ∀ l ∈ sendsTo b (body a k), part l = k
  exact : ∀ a b, ∀ k < n, ∀ l ∈ sendsTo b (body a k), ∀ k' < n, ∀ m ∈ sendsTo b (body a k'),
    accepts l m ↔ l = m
  ordered : ∀ i, ∀ k < n, (keys round (body i k)).Pairwise (· ≤ ·)
  rounds : ∀ i k k', k < k' → k' < n → ∀ x ∈ keys round (body i k), ∀ y ∈ keys round (body i k'),
    x ≤ y
  posted : ∀ i, ∀ k < n, PostedFirst (body i k)

section

variable {part : κ → ℕ} {N : ℕ} {body : ι → ℕ → List (Act ι κ σ δ)}

omit [DecidableEq κ]

lemma sendsTo_flatMap {α : Type*} {b : ι} {ks : List α} {f : α → List (Act ι κ σ δ)} :
    sendsTo b (ks.flatMap f) = ks.flatMap fun k => sendsTo b (f k) :=
  List.filterMap_flatMap

lemma labelsFrom_flatMap {α : Type*} {a : ι} {ks : List α} {f : α → List (ι × κ)} :
    labelsFrom a (ks.flatMap f) = ks.flatMap fun k => labelsFrom a (f k) :=
  List.filterMap_flatMap

omit [DecidableEq ι]

lemma postIds_flatMap {α : Type*} {ks : List α} {f : α → List (Act ι κ σ δ)} :
    postIds (ks.flatMap f) = ks.flatMap fun k => postIds (f k) :=
  List.filterMap_flatMap

lemma waitIds_flatMap {α : Type*} {ks : List α} {f : α → List (Act ι κ σ δ)} :
    waitIds (ks.flatMap f) = ks.flatMap fun k => waitIds (f k) :=
  List.filterMap_flatMap

lemma keys_flatMap {α : Type*} {ks : List α} {f : α → List (Act ι κ σ δ)} :
    keys round (ks.flatMap f) = ks.flatMap fun k => keys round (f k) :=
  List.filterMap_flatMap

lemma PostedFirst.append {cs' : List (Act ι κ σ δ)} (h : PostedFirst cs) (h' : PostedFirst cs')
    (hdisjoint : ∀ id ∈ waitIds cs, id ∉ postIds cs') : PostedFirst (cs ++ cs') := by
  induction cs with
  | nil => exact h'
  | cons c cs ih =>
    cases c with
    | post p => exact ih h hdisjoint
    | send dst l data => exact ih h hdisjoint
    | wait src l =>
      rw [waitIds_wait, List.forall_mem_cons] at hdisjoint
      refine ⟨fun hmem => ?_, ih h.2 hdisjoint.2⟩
      rcases List.mem_append.mp (postIds_append ▸ hmem) with hmem | hmem
      · exact h.1 hmem
      · exact hdisjoint.1 hmem

lemma PostedFirst.flatMap {α : Type*} {ks : List α} {f : α → List (Act ι κ σ δ)}
    (h : ∀ k ∈ ks, PostedFirst (f k))
    (hpairwise : ks.Pairwise fun k k' => ∀ id ∈ waitIds (f k), id ∉ postIds (f k')) :
    PostedFirst (ks.flatMap f) := by
  induction ks with
  | nil => trivial
  | cons k ks ih =>
    obtain ⟨hk, hpairwise⟩ := List.pairwise_cons.mp hpairwise
    rw [List.flatMap_cons]
    refine (h k List.mem_cons_self).append (ih (fun k' hk' => h k' ?_) hpairwise) fun id hid => ?_
    · exact List.mem_cons_of_mem k hk'
    · rw [postIds_flatMap, List.mem_flatMap]
      rintro ⟨k', hk', hid'⟩
      exact hk k' hk' id hid hid'

variable [DecidableEq ι]

/-- The receives of a part have its labels. -/
lemma PartsMeet.part_of_post {k : ℕ} {id : ι × κ}
    (h : PartsMeet accepts round msg holds part N body start) (hk : k < N)
    (hid : id ∈ postIds (body i k)) : part id.2 = k :=
  h.part id.1 i k hk id.2 ((h.labels id.1 i k hk).mem_iff.mpr (mem_labelsFrom.mpr hid))

/-- The parts together. -/
lemma PartsMeet.meets (h : PartsMeet accepts round msg holds part N body start) :
    Meets accepts round msg holds (fun i => (List.range N).flatMap (body i)) start := by
  have hlt : (List.range N).Pairwise (· < ·) := List.pairwise_lt_range
  refine ⟨h.start, fun i p hp => ?_, fun i dst l data hsend => ?_, fun i => ?_, fun a b => ?_,
    fun a b => ?_, fun a b l hl m hm => ?_, fun i => ?_, fun i => ?_⟩
  · obtain ⟨k, hk, hpost⟩ := List.mem_flatMap.mp hp
    exact h.store i k (List.mem_range.mp hk) p hpost
  · obtain ⟨k, hk, hmem⟩ := List.mem_flatMap.mp hsend
    exact h.data i k (List.mem_range.mp hk) dst l data hmem
  · rw [postIds_flatMap, waitIds_flatMap]
    exact List.Perm.flatMap_left _ fun k hk => h.waits i k (List.mem_range.mp hk)
  · rw [sendsTo_flatMap, postIds_flatMap, labelsFrom_flatMap]
    exact List.Perm.flatMap_left _ fun k hk => h.labels a b k (List.mem_range.mp hk)
  · rw [sendsTo_flatMap, List.nodup_flatMap]
    refine ⟨fun k hk => h.nodup a b k (List.mem_range.mp hk), ?_⟩
    refine hlt.imp_of_mem fun {k k'} hk hk' hkk' => ?_
    rw [Function.onFun, List.disjoint_left]
    intro l hl hl'
    have hpart := h.part a b k (List.mem_range.mp hk) l hl
    have hpart' := h.part a b k' (List.mem_range.mp hk') l hl'
    omega
  · rw [sendsTo_flatMap] at hl hm
    obtain ⟨k, hk, hl⟩ := List.mem_flatMap.mp hl
    obtain ⟨k', hk', hm⟩ := List.mem_flatMap.mp hm
    exact h.exact a b k (List.mem_range.mp hk) l hl k' (List.mem_range.mp hk') m hm
  · rw [keys_flatMap, List.pairwise_flatMap]
    refine ⟨fun k hk => h.ordered i k (List.mem_range.mp hk), ?_⟩
    refine hlt.imp_of_mem fun {k k'} hk hk' hkk' => ?_
    exact h.rounds i k k' hkk' (List.mem_range.mp hk')
  · refine PostedFirst.flatMap (fun k hk => h.posted i k (List.mem_range.mp hk)) ?_
    refine hlt.imp_of_mem fun {k k'} hk hk' hkk' id hid hid' => ?_
    have hpost := (h.waits i k (List.mem_range.mp hk)).mem_iff.mpr hid
    have hpart := h.part_of_post (List.mem_range.mp hk) hpost
    have hpart' := h.part_of_post (List.mem_range.mp hk') hid'
    omega

end

end NetPipe.Posting
