import NetPipe.Library.RwLock

/-!
# The lock of a window

`do_lock` and `try_lock`, which serve the lock and unlock requests for one window of one-sided
communication.
-/

namespace NetPipe.MpLite

/-- `LOCK_Q_SIZE`. -/
def lockQSize : ℕ := 1000

/-- `struct win_lock_q_node`, and the arguments of `do_lock`: a `type` of `0` is an unlock, `1` a
shared and `2` an exclusive lock. `arrival` numbers the requests; the code does not read it. -/
structure LockRequest where
  src : ℕ
  type : ℕ
  lock_flag : ℕ
  arrival : ℕ
  deriving DecidableEq, Repr

/-- The part of `struct MP_Window` that locks use. -/
structure Window where
  locked : ℕ
  count : ℤ
  lock_q : ℕ → LockRequest
  lock_q_head : ℕ
  lock_q_tail : ℕ

namespace Window

/-- `try_lock`, with `*req_granted`. It stops the program on an unlock too many. -/
def tryLock (type : ℕ) (win : Window) : Option (Window × Bool) :=
  if type = 0 then
    let win := { win with count := win.count - 1 }
    if win.count < 0 then none
    else some (if win.count = 0 then { win with locked := 0 } else win, true)
  else if type = 1 then
    if win.locked = 0 ∨ win.locked = 1 then
      some ({ win with locked := type, count := win.count + 1 }, true)
    else some (win, false)
  else
    if win.locked ≠ 0 then some (win, false)
    else some ({ win with locked := type, count := win.count + 1 }, true)

/-- The loop of `do_lock` over the queue, for at most `n` passes, with the requests it confirms. -/
def serveQueue : ℕ → Window → Option (Window × List LockRequest)
  | 0, win => some (win, [])
  | n + 1, win =>
    if win.lock_q_head = win.lock_q_tail then some (win, [])
    else
      let r := win.lock_q win.lock_q_head
      (win.tryLock r.type).bind fun (win, q_result) =>
        if q_result then
          (serveQueue n { win with lock_q_head := (win.lock_q_head + 1) % lockQSize }).map
            fun (win, out) => (win, r :: out)
        else some (win, [])

/-- `do_lock`, with the requests it confirms by `signal_safe_put`. -/
def doLock (r : LockRequest) (win : Window) : Option (Window × List LockRequest) :=
  (win.tryLock r.type).bind fun (win, req_granted) =>
    if r.type ≠ 0 ∧ req_granted = true then some (win, [r])
    else if r.type ≠ 0 ∧ req_granted = false then
      some ({ win with
        lock_q := Function.update win.lock_q win.lock_q_tail r
        lock_q_tail := (win.lock_q_tail + 1) % lockQSize }, [])
    else if r.type = 0 ∧ req_granted = true then
      if win.locked = 0 then
        (win.serveQueue lockQSize).map fun (win, out) => (win, r :: out)
      else some (win, [r])
    else some (win, [])

/-- A new window. -/
def create : Window := ⟨0, 0, fun _ => ⟨0, 0, 0, 0⟩, 0, 0⟩

/-- The requests in the queue. -/
def queued (win : Window) : List LockRequest :=
  (List.range ((win.lock_q_tail + lockQSize - win.lock_q_head) % lockQSize)).map fun i =>
    win.lock_q ((win.lock_q_head + i) % lockQSize)

end Window

/-- A window with the history of its requests: all requests in the order of their arrival, those
that were confirmed, and the lock requests whose lock was released. -/
structure LockRun where
  win : Window
  requested : List LockRequest
  confirmed : List LockRequest
  released : List LockRequest

namespace LockRun

/-- The lock requests that were granted and not released. -/
def holders (s : LockRun) : List LockRequest :=
  s.confirmed.filter fun r => r.type ≠ 0 ∧ r ∉ s.released

/-- `do_lock` is called for a request. Only the process of a holder unlocks, and fewer than
`LOCK_Q_SIZE` requests wait. -/
inductive Step : LockRun → LockRun → Prop where
  | lock (s : LockRun) (r : LockRequest) (win : Window) (out : List LockRequest)
      (htype : r.type = 1 ∨ r.type = 2) (hnew : r.arrival = s.requested.length)
      (hdo : s.win.doLock r = some (win, out))
      (hroom : s.requested.length + 1 < s.confirmed.length + out.length + lockQSize) :
      Step s ⟨win, s.requested ++ [r], s.confirmed ++ out, s.released⟩
  | unlock (s : LockRun) (r h : LockRequest) (win : Window) (out : List LockRequest)
      (htype : r.type = 0) (hnew : r.arrival = s.requested.length) (hheld : h ∈ s.holders)
      (hsrc : r.src = h.src) (hdo : s.win.doLock r = some (win, out)) :
      Step s ⟨win, s.requested ++ [r], s.confirmed ++ out, s.released ++ [h]⟩

/-- The window is created. -/
def init : LockRun := ⟨.create, [], [], []⟩

end LockRun

end NetPipe.MpLite
