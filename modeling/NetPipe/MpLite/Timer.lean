import Mathlib.Data.List.DropRight
import Mathlib.Tactic

/-!
# Timed blocks

`MP_Enter` and `MP_Leave` of `timer.c`. Blocks are told apart by their names, and the entry time is
kept with the block and not on the stack. Times are exact.
-/

namespace NetPipe.MpLite

/-- `Cleanup_String`: at most 39 characters, without spaces at the end, and up to a pipe. -/
def cleanupString (string : List Char) : List Char :=
  ((string.take 39).rdropWhile (· == ' ')).takeWhile (· != '|')

/-- `struct timed_block`. -/
structure TimedBlock where
  name : List Char
  t_enter : ℚ
  total_time : ℚ
  child_time : ℚ
  ncalls : ℕ
  nflops : ℚ
deriving DecidableEq

namespace TimedBlock

/-- The time spent in the block and not in lower ones. -/
def ownTime (b : TimedBlock) : ℚ := b.total_time - b.child_time

/-- A block that has not been entered. -/
def new (name : List Char) : TimedBlock := ⟨name, 0, 0, 0, 0, 0⟩

/-- The block is entered. -/
def enter (t : ℚ) (b : TimedBlock) : TimedBlock := { b with t_enter := t, ncalls := b.ncalls + 1 }

def addTotal (dt : ℚ) (b : TimedBlock) : TimedBlock := { b with total_time := b.total_time + dt }

def addChild (dt : ℚ) (b : TimedBlock) : TimedBlock := { b with child_time := b.child_time + dt }

def addFlops (nflops : ℚ) (b : TimedBlock) : TimedBlock := { b with nflops := b.nflops + nflops }

end TimedBlock

/-- `NUM_TIMED_BLOCKS`, the size of `block[]` and of `stack[]`. -/
abbrev numTimedBlocks : ℕ := 500

variable {block : List TimedBlock} {f : TimedBlock → TimedBlock} {id : ℕ}

lemma map_modify {α : Type*} {g : TimedBlock → α} (hf : ∀ b, g (f b) = g b)
    (block : List TimedBlock) (id : ℕ) : (block.modify id f).map g = block.map g := by
  induction block generalizing id with
  | nil => simp
  | cons b block ih =>
    cases id with
    | zero => simp [hf]
    | succ id => simp [ih]

/-- The blocks in use, and the open ones among them, the innermost first. -/
structure Timer where
  block : List TimedBlock
  stack : List ℕ
  nodup : (block.map TimedBlock.name).Nodup
  stack_lt : ∀ id ∈ stack, id < block.length
  length_block : block.length ≤ numTimedBlocks
  length_stack : stack.length ≤ numTimedBlocks

/-- How a call can fail: with an index that is out of bounds, or with an error. -/
inductive Fault
  | outOfBounds
  | exit

namespace Timer

/-- Before the first call. -/
def init : Timer where
  block := []
  stack := []
  nodup := List.nodup_nil
  stack_lt := by simp
  length_block := Nat.zero_le _
  length_stack := Nat.zero_le _

/-- The search for a name. -/
def find (name : List Char) (block : List TimedBlock) : Option (Fin block.length) :=
  (List.finRange block.length).foldl (fun id i => if name = block[i].name then some i else id) none

lemma find_eq_none {name : List Char} (h : find name block = none) :
    name ∉ block.map TimedBlock.name := by
  have hlast : ∀ l : List (Fin block.length),
      l.foldl (fun id i => if name = block[i].name then some i else id) none = none →
        ∀ i ∈ l, name ≠ block[i].name := by
    intro l
    induction l using List.reverseRecOn with
    | nil => simp
    | append_singleton l i ih =>
      intro hl
      rw [List.foldl_append, List.foldl_cons, List.foldl_nil] at hl
      split_ifs at hl with hi
      rw [List.forall_mem_append]
      exact ⟨ih hl, by simpa using hi⟩
  intro hmem
  obtain ⟨b, hb, hname⟩ := List.mem_map.mp hmem
  obtain ⟨i, hi, rfl⟩ := List.getElem_of_mem hb
  exact hlast _ h ⟨i, hi⟩ (List.mem_finRange _) hname.symm

lemma name_of_find {name : List Char} {id : Fin block.length} (h : find name block = some id) :
    block[id].name = name := by
  have hlast : ∀ l : List (Fin block.length),
      l.foldl (fun id i => if name = block[i].name then some i else id) none = some id →
        block[id].name = name := by
    intro l
    induction l using List.reverseRecOn with
    | nil => simp
    | append_singleton l i ih =>
      intro hl
      rw [List.foldl_append, List.foldl_cons, List.foldl_nil] at hl
      split_ifs at hl with hi
      · obtain rfl := Option.some_inj.mp hl
        exact hi.symm
      · exact ih hl
  exact hlast _ h

/-- A new block. -/
def add (name : List Char) (s : Timer) (hname : name ∉ s.block.map TimedBlock.name)
    (hlt : s.block.length < numTimedBlocks) : Timer where
  block := s.block ++ [.new name]
  stack := s.stack
  nodup := by
    rw [List.map_append]
    exact List.nodup_append'.mpr ⟨s.nodup, by simp, by simpa [TimedBlock.new] using hname⟩
  stack_lt id hid := by
    rw [List.length_append]
    exact Nat.lt_add_right 1 (s.stack_lt id hid)
  length_block := by
    rw [List.length_append]
    exact hlt
  length_stack := s.length_stack

/-- The block `id` is entered. -/
def push (t : ℚ) (s : Timer) (id : ℕ) (hid : id < s.block.length) : Except Fault Timer :=
  if h : s.stack.length < numTimedBlocks then
    .ok {
      block := s.block.modify id (·.enter t)
      stack := id :: s.stack
      nodup := by
        have hname : ∀ b : TimedBlock, (b.enter t).name = b.name := fun _ => rfl
        rw [map_modify hname]
        exact s.nodup
      stack_lt := by
        rw [List.length_modify, List.forall_mem_cons]
        exact ⟨hid, s.stack_lt⟩
      length_block := by
        rw [List.length_modify]
        exact s.length_block
      length_stack := h }
  else .error .outOfBounds

/-- `MP_Enter`. The check lets one block too many through. -/
def enter (t : ℚ) (name : List Char) (s : Timer) : Except Fault Timer :=
  match h : find (cleanupString name) s.block with
  | some id => s.push t id id.isLt
  | none =>
    if s.block.length > numTimedBlocks then .error .exit
    else if hlt : s.block.length < numTimedBlocks then
      (s.add (cleanupString name) (find_eq_none h) hlt).push t s.block.length (by simp [add])
    else .error .outOfBounds

/-- The time is added to the child time of the parent. -/
def chargeParent (dt : ℚ) (block : List TimedBlock) : List ℕ → List TimedBlock
  | [] => block
  | parent :: _ => block.modify parent (·.addChild dt)

/-- The blocks after the innermost one, `id`, is left. -/
def charge (t nflops : ℚ) (block : List TimedBlock) (id : Fin block.length) (stack : List ℕ) :
    List TimedBlock :=
  let dt := t - block[id].t_enter
  let block := block.modify id (·.addTotal dt)
  let block := chargeParent dt block stack
  block.modify id (·.addFlops nflops)

/-- Names and entry times do not change. -/
lemma map_charge {α : Type*} (g : TimedBlock → α) (htotal : ∀ dt b, g (b.addTotal dt) = g b)
    (hchild : ∀ dt b, g (b.addChild dt) = g b) (hflops : ∀ x b, g (b.addFlops x) = g b)
    (t nflops : ℚ) (id : Fin block.length) (stack : List ℕ) :
    (charge t nflops block id stack).map g = block.map g := by
  rw [charge, map_modify (hflops _)]
  cases stack with
  | nil => exact map_modify (htotal _) block id
  | cons parent stack => rw [chargeParent, map_modify (hchild _), map_modify (htotal _)]

lemma map_name_charge (t nflops : ℚ) (id : Fin block.length) (stack : List ℕ) :
    (charge t nflops block id stack).map TimedBlock.name = block.map TimedBlock.name :=
  map_charge _ (fun _ _ => rfl) (fun _ _ => rfl) (fun _ _ => rfl) t nflops id stack

lemma length_charge (t nflops : ℚ) (id : Fin block.length) (stack : List ℕ) :
    (charge t nflops block id stack).length = block.length := by
  simpa using congrArg List.length (map_name_charge t nflops id stack)

/-- `MP_Leave`. Nothing happens if no block is open. -/
def leave (t nflops : ℚ) (s : Timer) : Timer :=
  match h : s.stack with
  | [] => s
  | id :: stack => {
      block := charge t nflops s.block ⟨id, s.stack_lt id (by simp [h])⟩ stack
      stack := stack
      nodup := by
        rw [map_name_charge]
        exact s.nodup
      stack_lt i hi := by
        rw [length_charge]
        exact s.stack_lt i (by simp [h, hi])
      length_block := by
        rw [length_charge]
        exact s.length_block
      length_stack := by
        have hlen := s.length_stack
        rw [h, List.length_cons] at hlen
        exact Nat.le_of_succ_le hlen }

/-- The time spent in all blocks. -/
def ownTime (s : Timer) : ℚ := (s.block.map TimedBlock.ownTime).sum

/-- The name and the entry time of the outermost open block. -/
def entry (s : Timer) : Option (List Char × ℚ) :=
  s.stack.getLast?.bind fun id => s.block[id]?.map fun b => (b.name, b.t_enter)

end Timer

/-- A call of `MP_Enter` or `MP_Leave`, with what the clock shows. -/
inductive TimerCall
  | enter (t : ℚ) (name : List Char)
  | leave (t nflops : ℚ)

namespace TimerCall

def time : TimerCall → ℚ
  | enter t _ => t
  | leave t _ => t

def exec : TimerCall → Timer → Except Fault Timer
  | enter t name, s => s.enter t name
  | leave t nflops, s => .ok (s.leave t nflops)

/-- There is room for the call, and it does not enter the outermost open block again at a later
time. -/
def Fits (s : Timer) : TimerCall → Prop
  | enter t name =>
    (cleanupString name ∈ s.block.map TimedBlock.name ∨ s.block.length < numTimedBlocks) ∧
      s.stack.length < numTimedBlocks ∧ ∀ e ∈ s.entry, e.1 = cleanupString name → t = e.2
  | leave _ _ => True

end TimerCall

/-- The calls one after another. -/
def runCalls (calls : List TimerCall) (s : Timer) : Except Fault Timer :=
  calls.foldlM (fun s call => call.exec s) s

/-- Every call fits. -/
def AllFit : Timer → List TimerCall → Prop
  | _, [] => True
  | s, call :: calls => call.Fits s ∧ ∀ s', call.exec s = .ok s' → AllFit s' calls

/-- The time inside outermost blocks: how many blocks are open, when the outermost one was entered,
and the time in those that were left. -/
structure Outermost where
  depth : ℕ
  start : ℚ
  elapsed : ℚ

def Outermost.step (o : Outermost) : TimerCall → Outermost
  | .enter t _ => if o.depth = 0 then ⟨1, t, o.elapsed⟩ else { o with depth := o.depth + 1 }
  | .leave t _ =>
    if o.depth = 0 then o
    else if o.depth = 1 then ⟨0, o.start, o.elapsed + (t - o.start)⟩
    else { o with depth := o.depth - 1 }

/-- The time inside outermost blocks of calls. -/
def outermost (calls : List TimerCall) : Outermost := calls.foldl Outermost.step ⟨0, 0, 0⟩

/-- The calls find room, and afterwards the times of the blocks sum up to the time inside outermost
blocks. -/
def Accounted (calls : List TimerCall) : Prop :=
  ∃ s, runCalls calls .init = .ok s ∧ s.ownTime = (outermost calls).elapsed

variable {s s' : Timer} {c t nflops : ℚ} {name : List Char} {call : TimerCall}
  {calls : List TimerCall} {o : Outermost}

lemma sum_modify {d : ℚ} (hf : ∀ b, (f b).ownTime = b.ownTime + d) (hid : id < block.length) :
    ((block.modify id f).map TimedBlock.ownTime).sum = (block.map TimedBlock.ownTime).sum + d := by
  induction block generalizing id with
  | nil => simp at hid
  | cons b block ih =>
    cases id with
    | zero => simp [hf, add_right_comm]
    | succ id => simp [ih (Nat.lt_of_succ_lt_succ hid), add_assoc]

namespace Timer

/-! ### MP_Enter -/

lemma push_ok_iff (hid : id < s.block.length) :
    (∃ s', s.push t id hid = .ok s') ↔ s.stack.length < numTimedBlocks := by
  rw [push]
  split_ifs with h <;> simp [h]

lemma push_eq (hid : id < s.block.length) (h : s.push t id hid = .ok s') :
    s'.block = s.block.modify id (·.enter t) ∧ s'.stack = id :: s.stack := by
  rw [push] at h
  split_ifs at h
  obtain rfl := Except.ok.inj h
  exact ⟨rfl, rfl⟩

lemma entry_of_getLast (h : s.stack.getLast? = some id) (hid : id < s.block.length) :
    s.entry = some (s.block[id].name, s.block[id].t_enter) := by
  simp [entry, h, hid]

/-- Blocks are told apart by their names. -/
lemma getElem_name_inj (s : Timer) {i j : ℕ} (hi : i < s.block.length) (hj : j < s.block.length) :
    s.block[i].name = s.block[j].name ↔ i = j := by
  have hi' : i < (s.block.map TimedBlock.name).length := by rwa [List.length_map]
  have hj' : j < (s.block.map TimedBlock.name).length := by rwa [List.length_map]
  have hinj : (s.block.map TimedBlock.name)[i] = (s.block.map TimedBlock.name)[j] ↔ i = j :=
    s.nodup.getElem_inj_iff
  rwa [List.getElem_map, List.getElem_map] at hinj

lemma entry_eq_none_iff : s.entry = none ↔ s.stack = [] := by
  constructor
  · intro h
    by_contra hne
    have hlast := List.getLast?_eq_some_getLast hne
    rw [entry_of_getLast hlast (s.stack_lt _ (List.getLast_mem hne))] at h
    exact absurd h (Option.some_ne_none _)
  · intro h
    simp [entry, h]

lemma entry_add (hname : name ∉ s.block.map TimedBlock.name)
    (hlt : s.block.length < numTimedBlocks) : (s.add name hname hlt).entry = s.entry := by
  rcases List.eq_nil_or_concat s.stack with hnil | ⟨stack, id, hstack⟩
  · rw [entry_eq_none_iff.mpr hnil, entry_eq_none_iff]
    exact hnil
  · have hlast : s.stack.getLast? = some id := by simp [hstack]
    have hid : id < s.block.length := s.stack_lt id (List.mem_of_getLast? hlast)
    have hlen : id < (s.add name hname hlt).block.length := by
      simp [add, Nat.lt_add_right 1 hid]
    rw [entry_of_getLast hlast hid, entry_of_getLast (s := s.add name hname hlt) hlast hlen]
    simp [add, List.getElem_append_left hid]

lemma ownTime_add (hname : name ∉ s.block.map TimedBlock.name)
    (hlt : s.block.length < numTimedBlocks) : (s.add name hname hlt).ownTime = s.ownTime := by
  simp [ownTime, add, TimedBlock.new, TimedBlock.ownTime]

/-- A call of `MP_Enter` enters the block of its name, which may have been added to the others. -/
lemma enter_eq_push (h : s.enter t name = .ok s') :
    ∃ (s₁ : Timer) (id : ℕ) (hid : id < s₁.block.length), s₁.push t id hid = .ok s' ∧
      s₁.block[id].name = cleanupString name ∧ s₁.stack = s.stack ∧ s₁.ownTime = s.ownTime ∧
      s₁.entry = s.entry := by
  rw [enter] at h
  split at h
  case h_1 id hfind => exact ⟨s, id, id.isLt, h, name_of_find hfind, rfl, rfl, rfl⟩
  case h_2 hfind =>
    split_ifs at h with hgt hlt
    exact ⟨_, _, _, h, by simp [add, TimedBlock.new], rfl, ownTime_add _ hlt, entry_add _ hlt⟩

lemma enter_ok_iff : (∃ s', s.enter t name = .ok s') ↔
    (cleanupString name ∈ s.block.map TimedBlock.name ∨ s.block.length < numTimedBlocks) ∧
      s.stack.length < numTimedBlocks := by
  rw [enter]
  split
  case h_1 id hfind =>
    have hmem : cleanupString name ∈ s.block.map TimedBlock.name :=
      List.mem_map.mpr ⟨_, List.getElem_mem id.isLt, name_of_find hfind⟩
    rw [push_ok_iff]
    exact ⟨fun h => ⟨Or.inl hmem, h⟩, fun h => h.2⟩
  case h_2 hfind =>
    have hmem := find_eq_none hfind
    split_ifs with hgt hlt
    · exact absurd hgt (Nat.not_lt.mpr s.length_block)
    · rw [push_ok_iff]
      exact ⟨fun h => ⟨Or.inr hlt, h⟩, fun h => h.2⟩
    · simp [hmem, hlt]

lemma ownTime_enter (h : s.enter t name = .ok s') : s'.ownTime = s.ownTime := by
  obtain ⟨s₁, id, hid, hpush, -, -, hown, -⟩ := enter_eq_push h
  have hsame : ∀ b : TimedBlock, (b.enter t).ownTime = b.ownTime := fun _ => rfl
  rw [← hown, ownTime, (push_eq hid hpush).1, map_modify hsame, ownTime]

lemma length_stack_enter (h : s.enter t name = .ok s') :
    s'.stack.length = s.stack.length + 1 := by
  obtain ⟨s₁, id, hid, hpush, -, hstack, -, -⟩ := enter_eq_push h
  rw [(push_eq hid hpush).2, List.length_cons, hstack]

/-- The outermost open block is the one entered, or stays and may have a new entry time. -/
lemma entry_enter (h : s.enter t name = .ok s') : s'.entry =
    some (s.entry.elim (cleanupString name, t) fun e =>
      (e.1, if e.1 = cleanupString name then t else e.2)) := by
  obtain ⟨s₁, id, hid, hpush, hname, hstack, -, hentry⟩ := enter_eq_push h
  obtain ⟨hblock, hstack'⟩ := push_eq hid hpush
  have hlen : s'.block.length = s₁.block.length := by simp [hblock]
  rw [← hentry]
  rcases List.eq_nil_or_concat s₁.stack with hnil | ⟨stack, base, hcons⟩
  · have hlast : s'.stack.getLast? = some id := by simp [hstack', hnil]
    rw [entry_eq_none_iff.mpr hnil, entry_of_getLast hlast (hlen ▸ hid)]
    simp [hblock, TimedBlock.enter, hname]
  · have hlast₁ : s₁.stack.getLast? = some base := by simp [hcons]
    have hlast : s'.stack.getLast? = some base := by
      simp [hstack', hcons, List.getLast?_cons]
    have hbase := s₁.stack_lt base (List.mem_of_getLast? hlast₁)
    have hiff : s₁.block[base].name = cleanupString name ↔ id = base := by
      rw [← hname, ← s₁.getElem_name_inj hid hbase, eq_comm]
    rw [entry_of_getLast hlast₁ hbase, entry_of_getLast hlast (hlen ▸ hbase)]
    simp only [hblock, List.getElem_modify, Option.elim_some, hiff]
    split_ifs <;> rfl

/-! ### MP_Leave -/

lemma leave_of_nil (h : s.stack = []) : s.leave t nflops = s := by
  rw [leave]
  split
  case h_1 => rfl
  case h_2 id stack hcons => simp [h] at hcons

lemma leave_eq (t nflops : ℚ) {stack : List ℕ} (h : s.stack = id :: stack) (hid : id < s.block.length) :
    (s.leave t nflops).block = charge t nflops s.block ⟨id, hid⟩ stack ∧
      (s.leave t nflops).stack = stack := by
  rw [leave]
  split
  case h_1 hnil => simp [h] at hnil
  case h_2 id' stack' hcons =>
    obtain ⟨rfl, rfl⟩ := List.cons.inj (hcons.symm.trans h)
    exact ⟨rfl, rfl⟩

lemma ownTime_leave_last (h : s.stack = [id]) (hid : id < s.block.length) :
    (s.leave t nflops).ownTime = s.ownTime + (t - s.block[id].t_enter) := by
  have hflops : ∀ b : TimedBlock, (b.addFlops nflops).ownTime = b.ownTime := fun _ => rfl
  have htotal : ∀ (dt : ℚ) (b : TimedBlock), (b.addTotal dt).ownTime = b.ownTime + dt :=
    fun dt b => add_sub_right_comm b.total_time dt b.child_time
  rw [ownTime, (leave_eq t nflops h hid).1, charge, map_modify hflops, chargeParent,
    sum_modify (htotal _) hid]
  rfl

/-- What is added for a block is taken away for its parent. -/
lemma ownTime_leave {stack : List ℕ} {parent : ℕ} (h : s.stack = id :: parent :: stack) :
    (s.leave t nflops).ownTime = s.ownTime := by
  have hid : id < s.block.length := s.stack_lt id (by simp [h])
  have hparent : parent < s.block.length := s.stack_lt parent (by simp [h])
  have hflops : ∀ b : TimedBlock, (b.addFlops nflops).ownTime = b.ownTime := fun _ => rfl
  have htotal : ∀ (dt : ℚ) (b : TimedBlock), (b.addTotal dt).ownTime = b.ownTime + dt :=
    fun dt b => add_sub_right_comm b.total_time dt b.child_time
  have hchild : ∀ (dt : ℚ) (b : TimedBlock), (b.addChild dt).ownTime = b.ownTime + -dt :=
    fun dt b => (sub_add_eq_sub_sub _ _ _).trans (sub_eq_add_neg _ _)
  rw [ownTime, (leave_eq t nflops h hid).1, charge, map_modify hflops, chargeParent,
    sum_modify (hchild _) (by rwa [List.length_modify]), sum_modify (htotal _) hid,
    add_neg_cancel_right]
  rfl

lemma entry_eq (s : Timer) : s.entry =
    s.stack.getLast?.bind fun id => (s.block.map fun b => (b.name, b.t_enter))[id]? := by
  simp [entry]

lemma entry_leave {stack : List ℕ} {parent : ℕ} (h : s.stack = id :: parent :: stack) :
    (s.leave t nflops).entry = s.entry := by
  have hid : id < s.block.length := s.stack_lt id (by simp [h])
  obtain ⟨hblock, hstack⟩ := leave_eq t nflops h hid
  rw [entry_eq, entry_eq, hblock, hstack, h, List.getLast?_cons_cons,
    map_charge _ (fun _ _ => rfl) (fun _ _ => rfl) (fun _ _ => rfl)]

/-! ### Runs -/

/-- The time that is missing in the blocks, or will be when the outermost open block is left. -/
def missing (s : Timer) (o : Outermost) : ℚ :=
  o.elapsed - s.ownTime + s.entry.elim 0 fun e => e.2 - o.start

/-- The clock, which shows `c`, has not gone back since the outermost open block was entered. -/
structure Tracks (c : ℚ) (s : Timer) (o : Outermost) : Prop where
  depth : s.stack.length = o.depth
  entry_le : ∀ e ∈ s.entry, e.2 ≤ c

end Timer

open Timer

namespace TimerCall

/-- The call does not enter the outermost open block again at a later time. -/
def OnTime (s : Timer) : TimerCall → Prop
  | enter t name => ∀ e ∈ s.entry, e.1 = cleanupString name → t = e.2
  | leave _ _ => True

lemma fits_iff : call.Fits s ↔ (∃ s', call.exec s = .ok s') ∧ call.OnTime s := by
  cases call with
  | enter t name => rw [exec, enter_ok_iff, and_assoc, Fits, OnTime]
  | leave t nflops => simp [exec, Fits, OnTime]

end TimerCall

lemma Timer.Tracks.enter (h : Tracks c s o) (hc : c ≤ t) (hs : s.enter t name = .ok s') :
    Tracks t s' (o.step (.enter t name)) ∧ s.missing o ≤ s'.missing (o.step (.enter t name)) ∧
      (s'.missing (o.step (.enter t name)) = s.missing o ↔ (TimerCall.enter t name).OnTime s) := by
  have hentry := entry_enter hs
  have hown := ownTime_enter hs
  have hlen : s'.stack.length = s.stack.length + 1 := length_stack_enter hs
  rcases hopen : s.entry with - | ⟨base, t_enter⟩
  · have hdepth : o.depth = 0 := by
      rw [← h.depth, entry_eq_none_iff.mp hopen, List.length_nil]
    have hstep : o.step (.enter t name) = ⟨1, t, o.elapsed⟩ := if_pos hdepth
    have hsame : s'.missing ⟨1, t, o.elapsed⟩ = s.missing o := by
      simp [missing, hentry, hopen, hown]
    rw [hstep]
    refine ⟨⟨?_, ?_⟩, hsame.ge, iff_of_true hsame ?_⟩
    · rw [hlen, h.depth, hdepth]
    · simp [hentry, hopen]
    · simp [TimerCall.OnTime, hopen]
  · have hdepth : o.depth ≠ 0 := by
      rw [← h.depth, ne_eq, List.length_eq_zero_iff, ← entry_eq_none_iff, hopen]
      exact Option.some_ne_none _
    have hstep : o.step (.enter t name) = { o with depth := o.depth + 1 } := if_neg hdepth
    have hle : t_enter ≤ t := (h.entry_le _ hopen).trans hc
    have hmissing : s'.missing { o with depth := o.depth + 1 } =
        s.missing o + if base = cleanupString name then t - t_enter else 0 := by
      rw [missing, missing, hentry, hopen, hown, Option.elim_some, Option.elim_some,
        Option.elim_some]
      split_ifs <;> ring
    rw [hstep, hmissing]
    refine ⟨⟨?_, ?_⟩, ?_, ?_⟩
    · rw [hlen, h.depth]
    · rw [hentry, hopen]
      intro e he
      obtain rfl := Option.some_inj.mp he
      dsimp only [Option.elim_some]
      split_ifs
      · exact le_rfl
      · exact hle
    · split_ifs
      · exact le_add_of_nonneg_right (sub_nonneg.mpr hle)
      · exact le_add_of_nonneg_right le_rfl
    · rw [add_eq_left, TimerCall.OnTime, hopen]
      split_ifs with hname
      · simp [hname, sub_eq_zero]
      · simp [hname]

lemma Timer.Tracks.leave (h : Tracks c s o) (hc : c ≤ t) (nflops : ℚ) :
    Tracks t (s.leave t nflops) (o.step (.leave t nflops)) ∧
      (s.leave t nflops).missing (o.step (.leave t nflops)) = s.missing o := by
  rcases hstack : s.stack with - | ⟨id, - | ⟨parent, stack⟩⟩
  · have hdepth : o.depth = 0 := by rw [← h.depth, hstack, List.length_nil]
    have hstep : o.step (.leave t nflops) = o := if_pos hdepth
    rw [leave_of_nil hstack, hstep]
    exact ⟨⟨h.depth, fun e he => (h.entry_le e he).trans hc⟩, rfl⟩
  · have hid : id < s.block.length := s.stack_lt id (by simp [hstack])
    have hlast : s.stack.getLast? = some id := by simp [hstack]
    have hdepth : o.depth = 1 := by rw [← h.depth, hstack, List.length_singleton]
    have hstep : o.step (.leave t nflops) = ⟨0, o.start, o.elapsed + (t - o.start)⟩ := by
      simp [Outermost.step, hdepth]
    have hnil : (s.leave t nflops).stack = [] := (leave_eq t nflops hstack hid).2
    have hnone := entry_eq_none_iff.mpr hnil
    rw [hstep]
    refine ⟨⟨by rw [hnil, List.length_nil], by simp [hnone]⟩, ?_⟩
    rw [missing, missing, hnone, entry_of_getLast hlast hid, ownTime_leave_last hstack hid,
      Option.elim_none, Option.elim_some]
    ring
  · have hid : id < s.block.length := s.stack_lt id (by simp [hstack])
    have hdepth : o.depth = stack.length + 2 := by
      rw [← h.depth, hstack, List.length_cons, List.length_cons]
    have hstep : o.step (.leave t nflops) = { o with depth := stack.length + 1 } := by
      simp [Outermost.step, hdepth]
    have hentry : (s.leave t nflops).entry = s.entry := entry_leave hstack
    have hown : (s.leave t nflops).ownTime = s.ownTime := ownTime_leave hstack
    have hrest : (s.leave t nflops).stack = parent :: stack := (leave_eq t nflops hstack hid).2
    rw [hstep]
    refine ⟨⟨by rw [hrest, List.length_cons], ?_⟩, by rw [missing, missing, hentry, hown]⟩
    rw [hentry]
    exact fun e he => (h.entry_le e he).trans hc

/-- What a call does to the missing time. -/
lemma Timer.Tracks.exec (h : Tracks c s o) (hc : c ≤ call.time) (hs : call.exec s = .ok s') :
    Tracks call.time s' (o.step call) ∧ s.missing o ≤ s'.missing (o.step call) ∧
      (s'.missing (o.step call) = s.missing o ↔ call.OnTime s) := by
  cases call with
  | enter t name => exact h.enter hc hs
  | leave t nflops =>
    obtain rfl := Except.ok.inj hs
    obtain ⟨htracks, hmissing⟩ := h.leave hc nflops
    exact ⟨htracks, hmissing.ge, iff_of_true hmissing trivial⟩

/-- A run begins with its first call. -/
lemma runCalls_cons_eq_ok : runCalls (call :: calls) s = .ok s' ↔
    ∃ s₁, call.exec s = .ok s₁ ∧ runCalls calls s₁ = .ok s' := by
  rw [runCalls, List.foldlM_cons]
  cases call.exec s with
  | error => simp [bind, Except.bind]
  | ok s₁ => simp [bind, Except.bind, runCalls]

/-- In a run, no time is gained. -/
lemma Timer.Tracks.run (h : Tracks c s o)
    (hclock : (c :: calls.map TimerCall.time).Pairwise (· ≤ ·))
    (hs : runCalls calls s = .ok s') : s'.stack.length = (calls.foldl Outermost.step o).depth ∧
      s.missing o ≤ s'.missing (calls.foldl Outermost.step o) := by
  induction calls generalizing c s o with
  | nil =>
    obtain rfl := Except.ok.inj hs
    exact ⟨h.depth, le_rfl⟩
  | cons call calls ih =>
    obtain ⟨s₁, hcall, hrest⟩ := runCalls_cons_eq_ok.mp hs
    rw [List.map_cons, List.pairwise_cons] at hclock
    obtain ⟨htracks, hle, -⟩ := h.exec (hclock.1 _ List.mem_cons_self) hcall
    obtain ⟨hdepth, hle'⟩ := ih htracks hclock.2 hrest
    exact ⟨hdepth, hle.trans hle'⟩

/-- No time is missing at the end exactly if every call fits. -/
lemma Timer.Tracks.run_iff (h : Tracks c s o)
    (hclock : (c :: calls.map TimerCall.time).Pairwise (· ≤ ·)) :
    (∃ s', runCalls calls s = .ok s' ∧
      s'.missing (calls.foldl Outermost.step o) = s.missing o) ↔ AllFit s calls := by
  induction calls generalizing c s o with
  | nil => exact iff_of_true ⟨s, rfl, rfl⟩ trivial
  | cons call calls ih =>
    rw [List.map_cons, List.pairwise_cons] at hclock
    have hc : c ≤ call.time := hclock.1 _ List.mem_cons_self
    rw [AllFit, TimerCall.fits_iff]
    constructor
    · rintro ⟨s', hs, hmissing⟩
      obtain ⟨s₁, hcall, hrest⟩ := runCalls_cons_eq_ok.mp hs
      obtain ⟨htracks, hle, hiff⟩ := h.exec hc hcall
      have hle' := (htracks.run hclock.2 hrest).2
      -- nothing is gained in either part, so nothing is lost in the first one
      have heq : s₁.missing (o.step call) = s.missing o := by
        refine le_antisymm (hle'.trans ?_) hle
        rw [← hmissing]
        rfl
      refine ⟨⟨⟨s₁, hcall⟩, hiff.mp heq⟩, fun s₂ hs₂ => ?_⟩
      obtain rfl := Except.ok.inj (hcall.symm.trans hs₂)
      exact (ih htracks hclock.2).mp ⟨s', hrest, hmissing.trans heq.symm⟩
    · rintro ⟨⟨⟨s₁, hcall⟩, hontime⟩, hfit⟩
      obtain ⟨htracks, -, hiff⟩ := h.exec hc hcall
      obtain ⟨s', hrest, hmissing⟩ := (ih htracks hclock.2).mpr (hfit s₁ hcall)
      exact ⟨s', runCalls_cons_eq_ok.mpr ⟨s₁, hcall, hrest⟩, hmissing.trans (hiff.mpr hontime)⟩

/-- In the calls of a run that leaves every block it enters, the times of the blocks sum up to the
time inside outermost blocks exactly if every call fits. -/
theorem accounted_iff (hclock : (calls.map TimerCall.time).Pairwise (· ≤ ·))
    (hempty : (outermost calls).depth = 0) : Accounted calls ↔ AllFit .init calls := by
  have htracks : ∀ c, Tracks c .init ⟨0, 0, 0⟩ := fun c => ⟨rfl, by simp [Timer.init, entry]⟩
  obtain ⟨c, hc⟩ : ∃ c, (c :: calls.map TimerCall.time).Pairwise (· ≤ ·) := by
    cases calls with
    | nil => exact ⟨0, by simp⟩
    | cons call calls =>
      refine ⟨call.time, List.pairwise_cons.mpr ⟨?_, hclock⟩⟩
      rw [List.map_cons, List.pairwise_cons] at hclock
      rw [List.map_cons, List.forall_mem_cons]
      exact ⟨le_rfl, hclock.1⟩
  rw [Accounted, ← (htracks c).run_iff hc]
  refine exists_congr fun s => and_congr_right fun hs => ?_
  have hstack : s.stack = [] := by
    rw [← List.length_eq_zero_iff, ((htracks c).run hc hs).1]
    exact hempty
  have hinit : Timer.init.missing ⟨0, 0, 0⟩ = 0 := by simp [missing, Timer.init, entry, ownTime]
  rw [hinit, missing, entry_eq_none_iff.mpr hstack, Option.elim_none, add_zero, sub_eq_zero, eq_comm]
  rfl

theorem accounted_iff_once : Accounted [.enter 0 ['a'], .leave 1 0] ↔
    AllFit .init [.enter 0 ['a'], .leave 1 0] :=
  accounted_iff (by simp [TimerCall.time]) rfl

/-- A block that is entered again while it is open. -/
def enteredAgain : List TimerCall :=
  [.enter 0 ['a'], .enter 1 ['a'], .leave 2 0, .leave 3 0]

/-- Of the three seconds, the first is lost. -/
theorem not_accounted : ¬ Accounted enteredAgain := by
  rintro ⟨s, hs, hown⟩
  have htime : (runCalls enteredAgain .init).toOption.map Timer.ownTime =
      some (outermost enteredAgain).elapsed := by
    rw [hs]
    exact congrArg some hown
  revert htime
  decide +kernel

end NetPipe.MpLite
