import KOs.Arch.Sigframe
import KOs.Data.Flags
import KOs.Data.Transition
import Mathlib.Logic.Function.Basic

namespace KOs.Sched.Signals

open KOs.Common KOs.Data KOs.Arch

/-! Signals, from `sched/sched.c`, the system calls for them and `user/signal.h`.

There is one thread, its task node, and what it has of the processor and of memory in user mode.
Beside the mask of the kernel, `blocked` is what the calls for it have asked for.
-/

def nsig : Nat := 32

def sighup : Nat := 1
def sigint : Nat := 2
def sigquit : Nat := 3
def sigill : Nat := 4
def sigtrap : Nat := 5
def sigabrt : Nat := 6
def sigemt : Nat := 7
def sigfpe : Nat := 8
def sigkill : Nat := 9
def sigbus : Nat := 10
def sigsegv : Nat := 11
def sigsys : Nat := 12
def sigpipe : Nat := 13
def sigalrm : Nat := 14
def sigterm : Nat := 15
def sigurg : Nat := 16
def sigstop : Nat := 17
def sigtstp : Nat := 18
def sigcont : Nat := 19
def sigchld : Nat := 20
def sigttin : Nat := 21
def sigttou : Nat := 22
def sigio : Nat := 23
def sigwinch : Nat := 24
def sigusr1 : Nat := 25
def sigusr2 : Nat := 26

def sigSetmask : Int := 0
def sigBlock : Int := 1
def sigUnblock : Int := 2

def einval : Int := 22

def saNocldstop : Nat := 0x1
def saSiginfo : Nat := 0x2
def saOnstack : Nat := 0x4
def saRestart : Nat := 0x8

def sigDfl : UInt32 := 0
def sigIgn : UInt32 := 1

def sigaddset (what : UInt32) (sig : Nat) : UInt32 := what ||| bit sig
def sigdelset (what : UInt32) (sig : Nat) : UInt32 := what &&& ~~~bit sig
def sigismember (what : UInt32) (sig : Nat) : Bool := hasBit what sig

structure Sigaction where
  flags : Nat
  mask : UInt32
  handler : UInt32
deriving DecidableEq, Repr

/-- The functions that are default actions. -/
inductive DefaultAction where
  | ignr
  | kill
  | core
  | stop
  | cont
deriving DecidableEq, Repr

def sdUncatchable : Nat := 1 <<< 0
def sdKernel : Nat := 1 <<< 1

structure SigDescriptor where
  num : Nat
  flags : Nat
  handler : Option DefaultAction
deriving DecidableEq, Repr

/-- In the order of their dispatch.  The initialiser has 26 of the 32 descriptors; the others are zero. -/
def signals : List SigDescriptor :=
  [⟨sigkill, sdUncatchable ||| sdKernel, some .kill⟩, ⟨sigstop, sdUncatchable, some .stop⟩,
    ⟨sighup, 0, some .kill⟩, ⟨sigint, 0, some .kill⟩, ⟨sigquit, 0, some .core⟩, ⟨sigill, 0, some .core⟩,
    ⟨sigtrap, 0, some .core⟩, ⟨sigabrt, 0, some .core⟩, ⟨sigemt, 0, some .kill⟩, ⟨sigfpe, 0, some .core⟩,
    ⟨sigbus, 0, some .core⟩, ⟨sigsegv, 0, some .kill⟩, ⟨sigsys, 0, some .core⟩, ⟨sigpipe, 0, some .kill⟩,
    ⟨sigalrm, 0, some .kill⟩, ⟨sigterm, 0, some .kill⟩, ⟨sigurg, 0, some .ignr⟩, ⟨sigtstp, 0, some .stop⟩,
    ⟨sigcont, 0, some .cont⟩, ⟨sigchld, 0, some .ignr⟩, ⟨sigttin, 0, some .stop⟩, ⟨sigttou, 0, some .stop⟩,
    ⟨sigio, 0, some .kill⟩, ⟨sigwinch, 0, some .ignr⟩, ⟨sigusr1, 0, some .kill⟩, ⟨sigusr2, 0, some .kill⟩] ++
  List.replicate 6 ⟨0, 0, none⟩

structure SigTask where
  kernel : Bool
  pid : Nat
  sigtramp : UInt32
  sigactions : Nat → Sigaction
  sigMask : UInt32
  sigPending : UInt32
  /-- What `task_node_exit` has been called with; the thread does not get back to user mode then. -/
  exitCode : Option Nat
  state : CpuState
  memory : UserMemory
  /-- The mask as its callers define it. -/
  blocked : UInt32
  /-- The signals sent to the thread, the last one first. -/
  sent : List Nat
  /-- The signals whose handlers have been entered or default actions run, the last one first. -/
  acted : List Nat

def DefaultAction.run (num : Nat) (s : SigTask) : DefaultAction → Except Fault SigTask
  | .ignr => .ok s
  | .kill => .ok { s with exitCode := some num }
  | .core => .error (.panicf "sig - core dump unimplemented" [])
  | .stop => .error (.panicf "sig - stop unimplemented" [])
  | .cont => .error (.panicf "sig - cont unimplemented" [])

/-- The flags of a handler that the kernel does not support. -/
def checkSaFlags (flags : Nat) : Except Fault Unit :=
  if hasFlag flags saOnstack then .error (.panicf "sig - onstack unimplemented" [])
  else if hasFlag flags saNocldstop then .error (.panicf "sig - nocldstop unimplemented" [])
  else if hasFlag flags saSiginfo then .error (.panicf "sig - siginfo unimplemented" [])
  else if hasFlag flags saRestart then .error (.panicf "sig - restart unimplemented" [])
  else .ok ()

def SigTask.enter (num : Nat) (sa : Sigaction) (s : SigTask) : Except Fault SigTask :=
  (checkSaFlags sa.flags).bind (fun _ =>
    (archSetupSigaction s.state sa.handler s.sigtramp s.sigMask s.memory).map (fun (state, memory) =>
      { s with sigMask := sigaddset (s.sigMask ||| sa.mask) num
               blocked := sigaddset (s.blocked ||| sa.mask) num
               acted := num :: s.acted
               state
               memory }))

/-- The result says whether the delivery ends with this signal. -/
def doInvokeSigaction (sig : SigDescriptor) (s : SigTask) : Except Fault (Bool × SigTask) :=
  if s.kernel && !hasFlag sig.flags sdKernel then .ok (false, s)
  else
    let sa := s.sigactions sig.num
    if (sa.handler = sigDfl || hasFlag sig.flags sdUncatchable) && s.pid ≠ 1 then
      match sig.handler with
      | some handler => (handler.run sig.num { s with acted := sig.num :: s.acted }).map (fun s => (true, s))
      | none => .ok (true, s)
    else if sigismember s.sigMask sig.num then .ok (false, s)
    else
      let s := { s with sigPending := sigdelset s.sigPending sig.num }
      if sa.handler = sigIgn then .ok (false, s)
      else (s.enter sig.num sa).map (fun s => (true, s))

def deliverLoop : List SigDescriptor → SigTask → Except Fault SigTask
  | [], s => .ok s
  | sig :: rest, s =>
      if sigismember s.sigPending sig.num then
        match doInvokeSigaction sig s with
        | .error fault => .error fault
        | .ok (true, s) => .ok s
        | .ok (false, s) => deliverLoop rest s
      else deliverLoop rest s

def schedDeliverSignals (s : SigTask) : Except Fault SigTask :=
  if s.sigPending ≠ 0 && s.sigtramp = 0 then deliverLoop signals { s with sigPending := sigaddset 0 sigkill }
  else deliverLoop signals s

def threadSendSignal (sig : Nat) (s : SigTask) : SigTask :=
  { s with sigPending := sigaddset s.sigPending sig, sent := sig :: s.sent }

/-- `sigaction`, with what it returns; `*sa_old` is the entry as it was. -/
def sysSigaction (sig : Int) (sa : Option Sigaction) (s : SigTask) : Except Fault (Int × SigTask) :=
  if sig < 0 || sig > nsig then .ok (-einval, s)
  -- `sig > NSIG` lets the number of entries pass.
  else if sig.toNat ≥ nsig then .error (.outOfBounds "sigactions" sig.toNat)
  else
    match sa with
    | some sa => .ok (0, { s with sigactions := Function.update s.sigactions sig.toNat sa })
    | none => .ok (0, s)

/-- `sigprocmask`, with what it returns; `*oset` is the mask as it was. -/
def sysSigprocmask (how : Int) (set : Option UInt32) (s : SigTask) : Int × SigTask :=
  if how = sigBlock then (0, { s with sigMask := set.elim s.sigMask (s.sigMask ||| ·) })
  else if how = sigUnblock then (0, { s with sigMask := set.elim s.sigMask (s.sigMask &&& ·) })
  else if how = sigSetmask then (0, { s with sigMask := set.getD s.sigMask })
  else (-einval, s)

/-- What `sigprocmask` is for: to add a set to the mask, to remove it, or to replace the mask. -/
def procmask (how : Int) (set : Option UInt32) (mask : UInt32) : UInt32 :=
  if how = sigBlock then set.elim mask (mask ||| ·)
  else if how = sigUnblock then set.elim mask (mask &&& ~~~·)
  else if how = sigSetmask then set.getD mask
  else mask

def sysSigreturn (sp : UInt32) (s : SigTask) : Except Fault SigTask :=
  (archSetupSigreturn s.state sp s.memory).map (fun (state, mask) =>
    { s with state, sigMask := mask, blocked := mask })

inductive SignalEvent where
  | user (state : CpuState) (memory : UserMemory)
  | send (sig : Nat)
  | deliver
  | sigaction (sig : Int) (sa : Option Sigaction)
  | sigprocmask (how : Int) (set : Option UInt32)
  | sigreturn (sp : UInt32)

def signalling : Machine SigTask SignalEvent Fault where
  enabled event s :=
    match event with
    | .send sig => decide (sig < nsig)
    | .user state _ => s.exitCode.isNone && decide (state.exec.cs = selUserCode ||| splUser)
    | _ => s.exitCode.isNone
  perform event s :=
    match event with
    | .user state memory => .ok { s with state, memory }
    | .send sig => .ok (threadSendSignal sig s)
    | .deliver => schedDeliverSignals s
    | .sigaction sig sa => (sysSigaction sig sa s).map Prod.snd
    | .sigprocmask how set => .ok { (sysSigprocmask how set s).2 with blocked := procmask how set s.blocked }
    | .sigreturn sp => sysSigreturn sp s

end KOs.Sched.Signals
