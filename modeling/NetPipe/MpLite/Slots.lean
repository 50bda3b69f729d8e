import NetPipe.MpLite.Bonding
import NetPipe.MpLite.OneSided
import NetPipe.MpLite.Window

/-!
# Message slots and window slots

`create_msg_entry`, which takes a free slot of `msg_list`, and `MP_Win_create` and `MP_Win_free`,
which take and give back the slots of `windows`. Both searches start behind the slot that was taken
last.
-/

namespace NetPipe.MpLite

/-- How a call ends: it returns, it stops the program, or it reads or writes where it may not. -/
inductive Ending (α : Type*) where
  | returns (a : α)
  | errorx (err_num : ℤ) (text : String)
  | undefined
  deriving DecidableEq, Repr

/-! ### Messages -/

/-- `struct MP_msg_entry` with the fields that `create_msg_entry` sets. -/
structure MsgSlot extends BondEntry where
  cur_ptr : ℕ
  id : ℤ

/-- The slot `mid` as `create_msg_entry` sets it up. -/
def MsgSlot.create (nics : ℕ) (myproc : ℤ) (mid buf : ℕ) (nbytes src dest tag : ℤ) : MsgSlot :=
  ⟨.create nics myproc buf nbytes src dest tag, buf, mid⟩

/-- `msg_list`, and the index of the slot that was taken last. -/
structure MsgTable (maxMsgs : ℕ) where
  msg_list : ℕ → MsgSlot
  mid : ℕ
  mid_lt : mid < maxMsgs

namespace MsgTable

variable {maxMsgs : ℕ}

/-- The loop of `create_msg_entry`, which adds one to `mid` before each test. It has no result if
`fuel` passes are not enough. -/
def entryLoop (maxMsgs : ℕ) (msg_list : ℕ → MsgSlot) (mid_start : ℕ) : ℕ → ℕ → Option (Option ℕ)
  | 0, _ => none
  | fuel + 1, mid =>
    let mid := mid + 1
    if (msg_list (mid % maxMsgs)).buf ≠ 0 then
      if mid % maxMsgs = mid_start then some none
      else entryLoop maxMsgs msg_list mid_start fuel mid
    else some (some mid)

/-- `create_msg_entry` behind its loop, with the index of the slot it returns. -/
def takeEntry (nics : ℕ) (myproc : ℤ) (buf : ℕ) (nbytes src dest tag : ℤ) (t : MsgTable maxMsgs) :
    Option ℕ → Ending (MsgTable maxMsgs × ℕ)
  | none => .errorx maxMsgs "You have more than MAX_MSGS outstanding message headers"
  | some mid =>
    let msg := MsgSlot.create nics myproc (mid % maxMsgs) buf nbytes src dest tag
    .returns ({ msg_list := Function.update t.msg_list (mid % maxMsgs) msg
                mid := mid % maxMsgs
                mid_lt := Nat.mod_lt _ (Nat.zero_lt_of_lt t.mid_lt) }, mid % maxMsgs)

/-- `create_msg_entry`. -/
def createMsgEntry (nics : ℕ) (myproc : ℤ) (buf : ℕ) (nbytes src dest tag : ℤ) (fuel : ℕ)
    (t : MsgTable maxMsgs) : Option (Ending (MsgTable maxMsgs × ℕ)) :=
  (entryLoop maxMsgs t.msg_list t.mid fuel t.mid).map
    (t.takeEntry nics myproc buf nbytes src dest tag)

/-- A free slot is taken, which then knows its index, or there is none. -/
def Allocates (t : MsgTable maxMsgs) : Ending (MsgTable maxMsgs × ℕ) → Prop
  | .returns (t', i) => i < maxMsgs ∧ (t.msg_list i).buf = 0 ∧ (t'.msg_list i).id = i ∧
      t'.mid = i ∧ ∀ j, j ≠ i → t'.msg_list j = t.msg_list j
  | .errorx _ _ => ∀ i, i < maxMsgs → (t.msg_list i).buf ≠ 0
  | .undefined => False

variable {t : MsgTable maxMsgs} {fuel : ℕ}

lemma entryLoop_eq_slotLoop (msg_list : ℕ → MsgSlot) (start fuel mid : ℕ) :
    entryLoop maxMsgs msg_list start fuel mid =
      slotLoop (fun i => (msg_list i).buf ≠ 0) maxMsgs start fuel (mid + 1) := by
  induction fuel generalizing mid with
  | zero => rfl
  | succ fuel ih =>
    rw [entryLoop, slotLoop]
    simp only [ih]

/-- The loop takes the slot that `findEntry` gives. -/
lemma entryLoop_eq_findEntry (t : MsgTable maxMsgs) (hfuel : maxMsgs ≤ fuel) :
    (entryLoop maxMsgs t.msg_list t.mid fuel t.mid).map (Option.map (· % maxMsgs)) =
      some (findEntry maxMsgs t.mid fun i => (t.msg_list i).first) := by
  rw [entryLoop_eq_slotLoop, slotLoop_eq_nextFree t.mid_lt hfuel, Option.map_some,
    findEntry_eq_nextFree]
  rfl

/-- `create_msg_entry` returns or stops the program, and is right about the slots. -/
theorem exists_createMsgEntry (nics : ℕ) (myproc : ℤ) (buf : ℕ) (nbytes src dest tag : ℤ)
    (t : MsgTable maxMsgs) : ∃ r, (∀ fuel, maxMsgs ≤ fuel →
      t.createMsgEntry nics myproc buf nbytes src dest tag fuel = some r) ∧ t.Allocates r := by
  refine ⟨t.takeEntry nics myproc buf nbytes src dest tag
    (nextFree (fun i => (t.msg_list i).buf ≠ 0) maxMsgs t.mid), fun fuel hfuel => ?_, ?_⟩
  · rw [createMsgEntry, entryLoop_eq_slotLoop, slotLoop_eq_nextFree t.mid_lt hfuel, Option.map_some]
  · cases hfind : nextFree (fun i => (t.msg_list i).buf ≠ 0) maxMsgs t.mid with
    | none => exact fun i hi => used_of_nextFree hfind hi
    | some mid =>
      refine ⟨Nat.mod_lt _ (Nat.zero_lt_of_lt t.mid_lt), ?_, ?_, rfl, fun j hj => ?_⟩
      · exact not_not.mp (not_used_of_nextFree hfind)
      · simp [MsgSlot.create]
      · exact Function.update_of_ne hj _ _

end MsgTable

/-! ### Windows -/

/-- `struct MP_Window`. -/
structure WinEntry extends Window where
  post_sent : ℕ → ℤ
  post_received : ℕ → ℤ
  node : ℕ → WinElt

/-- The arguments of `MP_Win_create`, which of its calls of `malloc` succeed and what the new memory
holds, and what `MP_Gather` brings from the other processes. -/
structure WinArgs where
  base : ℕ
  size : ℤ
  disp_unit : ℤ
  winOk : Bool
  nodeOk : Bool
  flagsOk : Bool
  errno : ℤ
  fresh : WinEntry
  gathered : ℕ → WinElt

/-- The window that `MP_Win_create` sets up. -/
def WinArgs.window (nprocs myproc : ℕ) (x : WinArgs) : WinEntry :=
  { x.fresh with
    post_sent := fun i => if i < nprocs then 0 else x.fresh.post_sent i
    post_received := fun i => if i < nprocs then 0 else x.fresh.post_received i
    locked := 0
    count := 0
    lock_q_head := 0
    lock_q_tail := 0
    node := fun i => if i = myproc then ⟨x.base, x.size, x.disp_unit⟩ else x.gathered i }

/-- No call of `malloc` fails. -/
def WinArgs.AllOk (x : WinArgs) : Prop := x.winOk = true ∧ x.nodeOk = true ∧ x.flagsOk = true

/-- `windows`, and the index of the slot that was taken last. -/
structure WinTable (maxWins : ℕ) where
  windows : ℕ → Option WinEntry
  current_wid : ℕ
  wid_lt : current_wid < maxWins

/-- A call of `MP_Win_create`, or of `MP_Win_free` for a window id. -/
inductive WinCall where
  | create (x : WinArgs)
  | free (wid : ℕ)

/-- No call of `malloc` fails. -/
def WinCall.AllOk : WinCall → Prop
  | .create x => x.AllOk
  | .free _ => True

/-- Two processes make the same call, each with its own window. -/
inductive WinCall.Same : WinCall → WinCall → Prop where
  | create (x y : WinArgs) : Same (.create x) (.create y)
  | free (wid : ℕ) : Same (.free wid) (.free wid)

namespace WinTable

variable {maxWins nprocs : ℕ}

/-- The slot is in use. -/
def Used (t : WinTable maxWins) (i : ℕ) : Prop := t.windows i ≠ none

instance (t : WinTable maxWins) : DecidablePred t.Used := fun i =>
  decidable_of_iff ((t.windows i).isSome = true) Option.isSome_iff_ne_none

/-- `MP_Win_create` behind its loop, with the window id. -/
def takeWindow (nprocs myproc : ℕ) (x : WinArgs) (t : WinTable maxWins) :
    Option ℕ → Ending (WinTable maxWins × ℕ)
  | none => .errorx maxWins "You have more than MAX_WINS windows in use\n"
  | some wid =>
    if x.winOk = false then .errorx x.errno "MP_Win_create() - MP_Window malloc failed"
    else if x.nodeOk = false then .errorx x.errno "MP_Win_create() - MP_Win_elt malloc failed"
    else if x.flagsOk = false then .undefined
    else
      .returns ({ windows := Function.update t.windows (wid % maxWins) (x.window nprocs myproc)
                  current_wid := wid % maxWins
                  wid_lt := Nat.mod_lt _ (Nat.zero_lt_of_lt t.wid_lt) }, wid % maxWins)

/-- `MP_Win_create`. Its loop starts behind `current_wid` and adds one after each test. -/
def winCreate (nprocs myproc : ℕ) (x : WinArgs) (fuel : ℕ) (t : WinTable maxWins) :
    Option (Ending (WinTable maxWins × ℕ)) :=
  (slotLoop t.Used maxWins t.current_wid fuel (t.current_wid + 1)).map
    (t.takeWindow nprocs myproc x)

/-- `MP_Win_free`. -/
def winFree (wid : ℕ) (t : WinTable maxWins) : Ending (WinTable maxWins) :=
  if wid < maxWins ∧ t.Used wid then
    .returns { t with windows := Function.update t.windows wid none }
  else .undefined

/-- The calls of a process that all return, with the window ids it got. -/
inductive Runs (nprocs myproc : ℕ) :
    WinTable maxWins → List WinCall → WinTable maxWins → List ℕ → Prop where
  | nil (t) : Runs nprocs myproc t [] t []
  | create {t t' t'' x wid fuel calls wids}
      (hcreate : t.winCreate nprocs myproc x fuel = some (.returns (t', wid)))
      (hcalls : Runs nprocs myproc t' calls t'' wids) :
      Runs nprocs myproc t (.create x :: calls) t'' (wid :: wids)
  | free {t t' t'' wid calls wids} (hfree : t.winFree wid = .returns t')
      (hcalls : Runs nprocs myproc t' calls t'' wids) :
      Runs nprocs myproc t (.free wid :: calls) t'' wids

/-- A free slot is taken, or there is none, or a call of `malloc` fails. -/
def Allocates (x : WinArgs) (t : WinTable maxWins) : Ending (WinTable maxWins × ℕ) → Prop
  | .returns (t', wid) => wid < maxWins ∧ ¬ t.Used wid ∧ t'.Used wid ∧
      t'.current_wid = wid ∧ ∀ j, j ≠ wid → t'.windows j = t.windows j
  | .errorx _ _ => (∀ i, i < maxWins → t.Used i) ∨ x.winOk = false ∨ x.nodeOk = false
  | .undefined => x.flagsOk = false

/-- The tables of two processes that agree on the slots in use. -/
structure Matches (t₁ t₂ : WinTable maxWins) : Prop where
  current_wid : t₁.current_wid = t₂.current_wid
  used : ∀ i, t₁.Used i ↔ t₂.Used i

variable {p q fuel wid wid₁ wid₂ : ℕ} {x y : WinArgs} {t t' t₁ t₂ t₁' t₂' : WinTable maxWins}
  {found : Option ℕ} {calls₁ calls₂ : List WinCall} {wids₁ wids₂ : List ℕ}

lemma winCreate_eq (hfuel : maxWins ≤ fuel) : t.winCreate nprocs p x fuel =
    some (t.takeWindow nprocs p x (nextFree t.Used maxWins t.current_wid)) := by
  rw [winCreate, slotLoop_eq_nextFree t.wid_lt hfuel, Option.map_some]

/-- What a call of `MP_Win_create` that returns has done. -/
lemma winCreate_returns (h : t.winCreate nprocs p x fuel = some (.returns (t', wid))) :
    ∃ pos, nextFree t.Used maxWins t.current_wid = some pos ∧ wid = pos % maxWins ∧ x.AllOk ∧
      t'.windows = Function.update t.windows wid (x.window nprocs p) ∧ t'.current_wid = wid := by
  obtain ⟨found, hloop, htake⟩ := Option.map_eq_some_iff.mp h
  rw [eq_nextFree_of_slotLoop t.wid_lt hloop] at htake
  cases hfound : nextFree t.Used maxWins t.current_wid with
  | none =>
    rw [hfound] at htake
    cases htake
  | some pos =>
    rw [hfound, takeWindow] at htake
    split_ifs at htake with hwin hnode hflags
    obtain ⟨rfl, rfl⟩ := Prod.mk.inj (Ending.returns.inj htake)
    rw [Bool.not_eq_false] at hwin hnode hflags
    exact ⟨pos, rfl, rfl, ⟨hwin, hnode, hflags⟩, rfl, rfl⟩

lemma used_update {t' : WinTable maxWins} {w : Option WinEntry}
    (h : t'.windows = Function.update t.windows wid w) (i : ℕ) :
    t'.Used i ↔ if i = wid then w ≠ none else t.Used i := by
  rw [Used, h]
  split_ifs with hi
  · rw [hi, Function.update_self]
  · rw [Function.update_of_ne hi, Used]

lemma winFree_eq (hlt : wid < maxWins) (hused : t.Used wid) : t.winFree wid =
    .returns { t with windows := Function.update t.windows wid none } :=
  if_pos ⟨hlt, hused⟩

/-- What a call of `MP_Win_free` that returns has done. -/
lemma winFree_returns (h : t.winFree wid = .returns t') : wid < maxWins ∧ t.Used wid ∧
    t'.windows = Function.update t.windows wid none ∧ t'.current_wid = t.current_wid := by
  rw [winFree] at h
  split_ifs at h with hused
  cases h
  exact ⟨hused.1, hused.2, rfl, rfl⟩

/-- `MP_Win_create` returns or stops the program, and is right about the slots. -/
theorem exists_winCreate (nprocs myproc : ℕ) (x : WinArgs) (t : WinTable maxWins) :
    ∃ r, (∀ fuel, maxWins ≤ fuel → t.winCreate nprocs myproc x fuel = some r) ∧
      t.Allocates x r := by
  refine ⟨_, fun fuel hfuel => winCreate_eq hfuel, ?_⟩
  cases hfound : nextFree t.Used maxWins t.current_wid with
  | none => exact Or.inl fun i hi => used_of_nextFree hfound hi
  | some pos =>
    rw [takeWindow]
    split_ifs with hwin hnode hflags
    · exact Or.inr (Or.inl hwin)
    · exact Or.inr (Or.inr hnode)
    · exact hflags
    · refine ⟨Nat.mod_lt _ (Nat.zero_lt_of_lt t.wid_lt), not_used_of_nextFree hfound, ?_, rfl,
        fun j hj => Function.update_of_ne hj _ _⟩
      rw [used_update rfl, if_pos rfl]
      exact Option.some_ne_none _

namespace Matches

lemma nextFree_eq (h : t₁.Matches t₂) : nextFree t₁.Used maxWins t₁.current_wid =
    nextFree t₂.Used maxWins t₂.current_wid := by
  rw [h.current_wid]
  exact nextFree_congr (Nat.zero_lt_of_lt t₁.wid_lt) fun i _ => h.used i

lemma of_update (h : t₁.Matches t₂) {w₁ w₂ : Option WinEntry} (hw : w₁ ≠ none ↔ w₂ ≠ none)
    (h₁ : t₁'.windows = Function.update t₁.windows wid w₁)
    (h₂ : t₂'.windows = Function.update t₂.windows wid w₂)
    (hwid : t₁'.current_wid = t₂'.current_wid) : t₁'.Matches t₂' := by
  refine ⟨hwid, fun i => ?_⟩
  rw [used_update h₁, used_update h₂]
  split_ifs
  · exact hw
  · exact h.used i

/-- Both processes get the same window id. -/
lemma create (h : t₁.Matches t₂)
    (h₁ : ∃ fuel, t₁.winCreate nprocs p x fuel = some (.returns (t₁', wid₁)))
    (h₂ : ∃ fuel, t₂.winCreate nprocs q y fuel = some (.returns (t₂', wid₂))) :
    wid₁ = wid₂ ∧ t₁'.Matches t₂' := by
  obtain ⟨_, h₁⟩ := h₁
  obtain ⟨_, h₂⟩ := h₂
  obtain ⟨pos, hpos, rfl, -, hwin₁, hwid₁⟩ := winCreate_returns h₁
  obtain ⟨pos', hpos', rfl, -, hwin₂, hwid₂⟩ := winCreate_returns h₂
  rw [h.nextFree_eq, hpos', Option.some.injEq] at hpos
  subst hpos
  exact ⟨rfl, h.of_update (by simp) hwin₁ hwin₂ (hwid₁.trans hwid₂.symm)⟩

lemma free (h : t₁.Matches t₂) (h₁ : t₁.winFree wid = .returns t₁')
    (h₂ : t₂.winFree wid = .returns t₂') : t₁'.Matches t₂' := by
  obtain ⟨-, -, hwin₁, hwid₁⟩ := winFree_returns h₁
  obtain ⟨-, -, hwin₂, hwid₂⟩ := winFree_returns h₂
  exact h.of_update Iff.rfl hwin₁ hwin₂ (hwid₁.trans (h.current_wid.trans hwid₂.symm))

/-- Processes that make the same calls get the same window ids. -/
theorem wids_eq (h : t₁.Matches t₂) (hsame : List.Forall₂ WinCall.Same calls₁ calls₂)
    (h₁ : Runs nprocs p t₁ calls₁ t₁' wids₁) (h₂ : Runs nprocs q t₂ calls₂ t₂' wids₂) :
    wids₁ = wids₂ := by
  induction hsame generalizing t₁ t₂ wids₁ wids₂ with
  | nil =>
    cases h₁
    cases h₂
    rfl
  | cons hcall _ ih =>
    cases hcall with
    | create x y =>
      cases h₁ with
      | create hcreate₁ hcalls₁ =>
        cases h₂ with
        | create hcreate₂ hcalls₂ =>
          obtain ⟨rfl, h'⟩ := h.create ⟨_, hcreate₁⟩ ⟨_, hcreate₂⟩
          rw [ih h' hcalls₁ hcalls₂]
    | free wid =>
      cases h₁ with
      | free hfree₁ hcalls₁ =>
        cases h₂ with
        | free hfree₂ hcalls₂ => exact ih (h.free hfree₁ hfree₂) hcalls₁ hcalls₂

/-- A process gets through the calls that another one got through if no `malloc` fails. -/
theorem exists_runs (h : t₁.Matches t₂) (hsame : List.Forall₂ WinCall.Same calls₁ calls₂)
    (h₁ : Runs nprocs p t₁ calls₁ t₁' wids₁) (hok : ∀ call ∈ calls₂, call.AllOk) :
    ∃ t₂', Runs nprocs q t₂ calls₂ t₂' wids₁ := by
  induction hsame generalizing t₁ t₂ wids₁ with
  | nil =>
    cases h₁
    exact ⟨t₂, .nil t₂⟩
  | cons hcall _ ih =>
    rw [List.forall_mem_cons] at hok
    cases hcall with
    | create x y =>
      cases h₁ with
      | create hcreate hcalls =>
        obtain ⟨pos, hpos, rfl, -⟩ := winCreate_returns hcreate
        obtain ⟨hwin, hnode, hflags⟩ := hok.1
        have hcreate₂ : t₂.winCreate nprocs q y maxWins =
            some (t₂.takeWindow nprocs q y (nextFree t₂.Used maxWins t₂.current_wid)) :=
          winCreate_eq le_rfl
        rw [← h.nextFree_eq, hpos, takeWindow, hwin, hnode, hflags] at hcreate₂
        obtain ⟨-, h'⟩ := h.create ⟨_, hcreate⟩ ⟨_, hcreate₂⟩
        obtain ⟨t₂', hruns⟩ := ih h' hcalls hok.2
        exact ⟨t₂', .create hcreate₂ hruns⟩
    | free wid =>
      cases h₁ with
      | free hfree hcalls =>
        obtain ⟨hlt, hused, -⟩ := winFree_returns hfree
        have hfree₂ := winFree_eq hlt ((h.used wid).mp hused)
        obtain ⟨t₂', hruns⟩ := ih (h.free hfree hfree₂) hcalls hok.2
        exact ⟨t₂', .free hfree₂ hruns⟩

end Matches

end WinTable

/-! ### Both tables -/

/-- Both searches end and take a free slot, or there is none, and processes that make the same calls
get the same window ids. `MP_Win_create` also stops when a call of `malloc` fails. -/
structure SlotsAllocated (maxMsgs maxWins : ℕ) : Prop where
  entries : ∀ (t : MsgTable maxMsgs) nics myproc buf nbytes src dest tag,
    ∃ r, (∀ fuel, maxMsgs ≤ fuel →
      t.createMsgEntry nics myproc buf nbytes src dest tag fuel = some r) ∧ t.Allocates r
  windows : ∀ (t : WinTable maxWins) nprocs myproc x, ∃ r, (∀ fuel, maxWins ≤ fuel →
    t.winCreate nprocs myproc x fuel = some r) ∧ t.Allocates x r
  wids : ∀ (t₁ t₂ t₁' t₂' : WinTable maxWins) nprocs p q calls₁ calls₂ wids₁ wids₂,
    t₁.Matches t₂ → List.Forall₂ WinCall.Same calls₁ calls₂ →
      WinTable.Runs nprocs p t₁ calls₁ t₁' wids₁ → WinTable.Runs nprocs q t₂ calls₂ t₂' wids₂ →
        wids₁ = wids₂

theorem slotsAllocated (maxMsgs maxWins : ℕ) : SlotsAllocated maxMsgs maxWins where
  entries t nics myproc buf nbytes src dest tag :=
    MsgTable.exists_createMsgEntry nics myproc buf nbytes src dest tag t
  windows t nprocs myproc x := WinTable.exists_winCreate nprocs myproc x t
  wids _ _ _ _ _ _ _ _ _ _ _ h hsame h₁ h₂ := h.wids_eq hsame h₁ h₂

lemma maxWins_pos : 0 < 10000 := by norm_num

/-- The table before the first window. -/
def WinTable.init : WinTable 10000 := ⟨fun _ => none, 0, maxWins_pos⟩

/-- There is no memory for the window. -/
def noMemory : WinArgs where
  base := 4096
  size := 64
  disp_unit := 1
  winOk := false
  nodeOk := true
  flagsOk := true
  errno := 12
  fresh := ⟨⟨0, 0, fun _ => ⟨0, 0, 0, 0⟩, 0, 0⟩, fun _ => 0, fun _ => 0, fun _ => ⟨0, 0, 0⟩⟩
  gathered _ := ⟨0, 0, 0⟩

/-- `MP_Win_create` stops the program although all windows are free. -/
theorem winCreate_stops : ¬ ∀ (t : WinTable 10000) nprocs myproc x fuel err_num text,
    t.winCreate nprocs myproc x fuel = some (.errorx err_num text) →
      ∀ i, i < 10000 → t.Used i := by
  intro h
  have hstops : WinTable.init.winCreate 2 0 noMemory 1 =
      some (.errorx 12 "MP_Win_create() - MP_Window malloc failed") := rfl
  exact h _ _ _ _ _ _ _ hstops 0 (by norm_num) rfl

end NetPipe.MpLite
