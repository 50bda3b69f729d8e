import NetPipe.Library.Interrupts

/-!
# Signals of MP_Lite

What every function of the library does to the signal mask and to the four variables that
`Block_Signals`, `Unblock_Signals` and `sigio_handler` work with, for one process that uses TCP.
A branch or loop condition that reads anything else may go either way here.
-/

namespace NetPipe.MpLite

open Interrupts Interrupts.Cmd

/-- The variables the signals depend on, and whether `SIGIO` is masked. -/
structure Signals where
  already_blocking : ℤ
  masked : Bool
  need_to_block : Bool
  protect_from_sig_handler : Bool
  received_signal : Bool
  deriving DecidableEq, Repr

namespace Signals

/-- The initial values. -/
def init : Signals := ⟨0, false, false, false, false⟩

/-- `already_blocking++`. -/
def incr (s : Signals) : Signals := { s with already_blocking := s.already_blocking + 1 }

/-- `already_blocking--`. -/
def decr (s : Signals) : Signals := { s with already_blocking := s.already_blocking - 1 }

/-- `sigprocmask` with `SIG_BLOCK` or `SIG_UNBLOCK`. -/
def setMask (b : Bool) (s : Signals) : Signals := { s with masked := b }

def setNeed (b : Bool) (s : Signals) : Signals := { s with need_to_block := b }

def setProtect (b : Bool) (s : Signals) : Signals := { s with protect_from_sig_handler := b }

def setReceived (b : Bool) (s : Signals) : Signals := { s with received_signal := b }

end Signals

/-- The functions of `tcp.c`, `utils.c`, `io.c` and `memory.c` that matter for the signals. -/
inductive Proc where
  | blockSignals | unblockSignals
  | stopProtect | sigioHandler
  | mpMalloc | mpFree | dbprintf
  | createMsgEntry | sendToQ | recvFromQ | checkHeader | readMsg | writeMsg | doSend | doRecv
  | tcpAsend | tcpArecv | tcpBlock | pushToBuffer
  | serviceOsSocket | recvPutData | recvGetRequest | recvGetReplyData | recvAccumOperation
  | recvLockRequest | recvActiveTargetSync | doLock | signalSafePut
  | addMsgid | remMsgid | showHeadMsgid
  | mpASend | mpARecv | mpWait | mpTest | mpTestall | mpAProbe | mpAPut | mpAGet | mpAAccumulate
  | mpWinLock | mpWinUnlock
  deriving DecidableEq, Repr

namespace Proc

/-- `dbprintf`, `lprintf`, and `post` and the parts of `twiddle` and `dump_msg_state`, which do
nothing else to the signals. -/
def print : Cmd Signals Proc := call dbprintf

/-- A check that ends the process with an error: `errorx`, `range_check`, `win_check`, `try_lock`
and those that call `exit`. -/
def check : Cmd Signals Proc := maybe exit

/-- `start_protect_from_sig_handler`. -/
def startProtect : Cmd Signals Proc := op (Signals.setProtect true)

/-- `update_msg_progress`. -/
def updateMsgProgress : Cmd Signals Proc := body [maybe (body [print, check]), print]

/-- `stall_check`. -/
def stallCheck : Cmd Signals Proc := body [loop print, check]

/-- `do_accum_op`. -/
def doAccumOp : Cmd Signals Proc := body [print, check]

/-- `while( m > 0 && msg->nleft > 0 )` around a read of the header and a read of data, for the
one-sided messages that do not use `read_msg`. -/
def readLoop (onData : Cmd Signals Proc) : Cmd Signals Proc :=
  loop (body [
    maybe (body [print, updateMsgProgress, maybe (call checkHeader)]),
    maybe (body [print, updateMsgProgress, onData])])

/-- The end of a function that receives one-sided messages: if the whole message is there it is
acted on, and if the next header is there too its function is called. -/
def finish (act : Cmd Signals Proc) : Cmd Signals Proc :=
  oneOf [print, body [print, act, maybe (call serviceOsSocket)]]

/-- `MP_Win_lock` and `MP_Win_unlock` from the request on. -/
def requestLock : Cmd Signals Proc :=
  body [
    oneOf [
      body [call blockSignals, call doLock, call unblockSignals],
      body [call createMsgEntry, call tcpAsend, call addMsgid, call mpWait]],
    loop skip]

/-- `sigio_handler` between its two changes of `already_blocking`. -/
def serviceSockets : Cmd Signals Proc :=
  body [
    loop (maybe (call doSend)),
    loop (maybe (call doRecv)),
    loop (maybe (body [print, call serviceOsSocket])),
    -- the receives from any source: a loop over the nodes, and one over the headers of a node
    maybe (loop (loop (body [print, oneOf [
      print,
      body [print, loop (oneOf [
        body [print, maybe print, call doRecv],
        body [print, call mpMalloc, check, call createMsgEntry, print, print, call doRecv]])]]])))]

/-- The bodies of the functions. -/
def code : Proc → Cmd Signals Proc
  | blockSignals =>
    -- the test is on the value before the increment
    body [op Signals.incr,
      cond (fun s => s.already_blocking == 1) (op (Signals.setMask true)) skip]
  | unblockSignals =>
    body [op Signals.decr,
      cond (fun s => s.already_blocking == 0) (op (Signals.setMask false)) skip]
  | stopProtect =>
    body [op (Signals.setProtect false),
      cond Signals.received_signal
        (body [print, op (Signals.setReceived false), op (Signals.setNeed true),
          call sigioHandler, op (Signals.setNeed false)])
        skip]
  | sigioHandler =>
    body [
      cond Signals.protect_from_sig_handler
        (body [op (Signals.setReceived true), ret])
        (cond Signals.received_signal (op (Signals.setReceived false)) skip),
      cond Signals.need_to_block (call blockSignals) skip,
      op Signals.incr,
      print,
      serviceSockets,
      op Signals.decr,
      cond Signals.need_to_block (call unblockSignals) skip,
      print]
  | mpMalloc => body [startProtect, call stopProtect]
  | mpFree => body [startProtect, call stopProtect]
  | dbprintf => maybe (body [call blockSignals, call unblockSignals])
  | createMsgEntry => loop (maybe (body [print, print, check]))
  | sendToQ => body [print, call mpMalloc, check, print]
  | recvFromQ =>
    body [
      maybe ret,
      print,
      loop (loop (maybe (body [
        maybe print,
        oneOf [
          print,
          body [print, call blockSignals, loop print, call unblockSignals]],
        call mpFree,
        ret]))),
      check,
      print]
  | checkHeader =>
    oneOf [
      oneOf [print, check],
      body [print, maybe print],
      body [print, oneOf [print, body [print, call mpMalloc, call createMsgEntry, print]]]]
  | readMsg =>
    loop (body [
      maybe (body [print, updateMsgProgress, maybe (call checkHeader)]),
      maybe (body [print, updateMsgProgress])])
  | writeMsg =>
    loop (body [maybe (body [print, updateMsgProgress]), maybe (body [print, updateMsgProgress])])
  | doSend =>
    body [
      print,
      loop (body [call writeMsg, loop print]),
      maybe (body [maybe (loop (maybe (call mpFree))), maybe (call doSend)])]
  | doRecv =>
    body [
      print,
      maybe (call recvFromQ),
      loop (call readMsg),
      maybe (maybe (call doRecv))]
  | tcpAsend => body [print, maybe (call doSend)]
  | tcpArecv =>
    body [
      call recvFromQ,
      maybe (body [print, oneOf [body [print, call sigioHandler], call doRecv, skip]])]
  | tcpBlock => loop (maybe stallCheck)
  | pushToBuffer =>
    body [
      call blockSignals,
      loop (maybe (body [call mpMalloc, check])),
      print,
      call unblockSignals]
  | serviceOsSocket =>
    body [print, oneOf [call recvPutData, call recvGetRequest, call recvGetReplyData,
      call recvAccumOperation, call recvLockRequest, call recvActiveTargetSync, exit]]
  | recvPutData => body [print, maybe (call createMsgEntry), loop (call readMsg), finish skip]
  | recvGetRequest =>
    body [
      print,
      check,
      maybe (call createMsgEntry),
      loop (call readMsg),
      finish (body [call createMsgEntry, call tcpAsend, print])]
  | recvGetReplyData =>
    body [print, maybe (call createMsgEntry), loop (call readMsg), finish print]
  | recvAccumOperation =>
    body [print, maybe (call createMsgEntry), readLoop (maybe doAccumOp), finish skip]
  | recvLockRequest =>
    body [print, maybe (call createMsgEntry), readLoop skip, finish (call doLock)]
  | recvActiveTargetSync =>
    body [print, maybe (call createMsgEntry), readLoop skip, finish skip]
  | doLock =>
    body [
      print,
      check,
      oneOf [
        call signalSafePut,
        body [print, maybe (body [print, print])],
        body [call signalSafePut, loop (body [check, maybe (call signalSafePut)])]]]
  | signalSafePut =>
    body [
      print,
      call blockSignals,
      call createMsgEntry,
      maybe (call tcpAsend),
      call unblockSignals,
      print]
  | addMsgid => body [startProtect, print, call mpMalloc, check, print, call stopProtect]
  | remMsgid => body [startProtect, print, loop (maybe (call mpFree)), check, print,
      call stopProtect]
  | showHeadMsgid => body [startProtect, print, print, call stopProtect]
  | mpASend =>
    body [
      call blockSignals,
      print,
      check,
      call createMsgEntry,
      oneOf [call sendToQ, call tcpAsend],
      call unblockSignals,
      print]
  | mpARecv =>
    body [
      call blockSignals,
      print,
      check,
      call createMsgEntry,
      maybe (call tcpArecv),
      call unblockSignals,
      print]
  | mpWait =>
    body [
      print,
      maybe ret,
      check,
      oneOf [
        skip,
        body [print, call pushToBuffer],
        call recvFromQ,
        body [print, call tcpBlock, print]],
      -- the reply to a get, with its busy wait
      maybe (body [print, check, loop skip, call mpFree]),
      maybe (call remMsgid),
      print]
  | mpTest =>
    body [
      call blockSignals,
      print,
      check,
      oneOf [skip, call mpWait],
      print,
      call unblockSignals]
  | mpTestall => body [call blockSignals, loop check, maybe (loop (call mpWait))]
  | mpAProbe =>
    body [
      call blockSignals,
      print,
      maybe (loop (loop (maybe (body [print, call unblockSignals, ret])))),
      -- a loop over the sources, and one over the headers of a source
      loop (loop (oneOf [
        maybe (body [call unblockSignals, ret]),
        body [print, call unblockSignals, ret],
        body [
          call mpMalloc,
          check,
          call createMsgEntry,
          print,
          print,
          print,
          call doRecv,
          maybe (maybe (body [call unblockSignals, ret]))]])),
      call unblockSignals]
  | mpAPut =>
    body [
      print,
      maybe (body [print, ret]),
      call blockSignals,
      check,
      check,
      call createMsgEntry,
      maybe (call tcpAsend),
      call addMsgid,
      call unblockSignals,
      print]
  | mpAGet =>
    body [
      print,
      maybe (body [print, ret]),
      call blockSignals,
      check,
      check,
      call createMsgEntry,
      maybe (body [call mpMalloc, check, call tcpAsend]),
      call addMsgid,
      call unblockSignals,
      print]
  | mpAAccumulate =>
    body [
      print,
      maybe (body [print, ret]),
      call blockSignals,
      check,
      check,
      call createMsgEntry,
      oneOf [doAccumOp, call tcpAsend],
      call addMsgid,
      call unblockSignals,
      print]
  | mpWinLock => body [print, requestLock, print]
  | mpWinUnlock =>
    body [
      print,
      call showHeadMsgid,
      loop (body [call mpWait, call showHeadMsgid]),
      requestLock,
      print]

/-- The calls a program makes. -/
def TopLevel : Proc → Prop
  | mpASend | mpARecv | mpWait | mpTest | mpTestall | mpAProbe | mpAPut | mpAGet | mpAAccumulate
  | mpWinLock | mpWinUnlock => True
  | _ => False

end Proc

/-- The library: `SIGIO` is masked while its handler runs, and afterwards as it was before. -/
def mpLite : Program Signals Proc where
  code := Proc.code
  handler := .sigioHandler
  enabled s := !s.masked
  enter := Signals.setMask true
  leave saved := Signals.setMask saved.masked

namespace Signals

/-- The states that a program can reach which makes the calls `S`. -/
def Reachable (S : Set Proc) : List (Frame Signals Proc) → Signals → Prop :=
  Interrupts.Reachable mpLite (fun p => p.TopLevel ∧ p ∈ S) init

/-- `already_blocking` is never negative, and outside the library it is zero and `SIGIO` is not
masked. -/
def Balanced (S : Set Proc) : Prop :=
  ∀ k s, Reachable S k s →
    0 ≤ s.already_blocking ∧ (k = [] → s.already_blocking = 0 ∧ s.masked = false)

end Signals

end NetPipe.MpLite
