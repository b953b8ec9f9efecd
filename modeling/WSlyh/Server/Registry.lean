import Mathlib.Data.Finset.Image
import WSlyh.Http.Connection
import WSlyh.Timer.Operations

/-! The open descriptors, the events they are armed for, and what the event loop keeps about
each of them: the client data, the timers and the number of connections. -/

namespace WSlyh.Server

open Http Timer

def maxFd : Int := 65536
def timeslot : Int := 5

inductive Fault
  | memory (fault : Timer.Fault)
  | nullCallback
  | terminated (exception : StringFailure)
  deriving DecidableEq, Repr

structure SClientData where
  sockFd : Int
  timer : Option TimerPtr
  deriving DecidableEq, Repr

/-- How the kernel watches a registered descriptor. `EPOLLONESHOT` disarms it when an event
is delivered. -/
inductive Watch
  | disarmed
  | armed (event : EpollEvent)
  deriving DecidableEq, Repr

/-- An open descriptor leads to a connection; connections are numbered as they are accepted.
`closed` says what each `close` closed, `lastActivity` when a descriptor was last active, and
`clock` is the last reading of the clock. -/
structure Registry where
  fds : Int → Option Nat
  epoll : Int → Option Watch
  accepted : Nat
  closed : List (Option Nat)
  httpCnt : Int
  clientDatas : Int → SClientData
  timerHeap : CTimerHeap
  lastActivity : Int → Int
  clock : Int

/-- The start of `main`, with a heap of this capacity. -/
def Registry.start (capacity : Nat) (now : Int) : Registry where
  fds _ := none
  epoll _ := none
  accepted := 0
  closed := []
  httpCnt := 0
  clientDatas _ := ⟨0, none⟩
  timerHeap := .create capacity
  lastActivity _ := 0
  clock := now

/-- The timer of an accepted connection, as `main` sets it up. -/
def clientTimer (heap : CTimerHeap) (connfd now : Int) : CTimerHeap × TimerPtr :=
  let (heap, tempTimer) := heap.newTimer now (3 * timeslot)
  (heap.modify tempTimer fun timer =>
    { timer with clientData := connfd, callbackFunc := some .callBackFunc }, tempTimer)

namespace Registry

/-- `accept` returns this descriptor. -/
def opened (r : Registry) (connfd : Int) : Registry :=
  { r with fds := Function.update r.fds connfd (some r.accepted), accepted := r.accepted + 1 }

/-- `close`, which ends the watch too. -/
def close (r : Registry) (fd : Int) : Registry :=
  { r with
    fds := Function.update r.fds fd none
    epoll := Function.update r.epoll fd none
    closed := r.closed ++ [r.fds fd] }

/-- `EPOLL_CTL_ADD` by `AddFd`, with `EPOLLONESHOT`. -/
def addFd (r : Registry) (fd : Int) : Registry :=
  { r with epoll := Function.update r.epoll fd (some (.armed .epollIn)) }

/-- `EPOLL_CTL_MOD`, which fails for a descriptor that is not registered. -/
def modFd (r : Registry) (fd : Int) (event : EpollEvent) : Registry :=
  { r with epoll := Function.update r.epoll fd ((r.epoll fd).map fun _ => .armed event) }

/-- `EPOLL_CTL_DEL` -/
def epollDel (r : Registry) (fd : Int) : Registry := { r with epoll := Function.update r.epoll fd none }

/-- The delivery of events for these descriptors. -/
def disarm (r : Registry) (delivered : List Int) : Registry :=
  { r with epoll := fun fd => if fd ∈ delivered then (r.epoll fd).map fun _ => .disarmed else r.epoll fd }

def count (r : Registry) (change : Int) : Registry := { r with httpCnt := r.httpCnt + change }

def perform (r : Registry) : Effect → Registry
  | .addFd fd _ => r.addFd fd
  | .modFd fd event _ => r.modFd fd event
  | .removeFd fd => (r.epollDel fd).close fd
  | .httpCnt change => r.count change
  | .send _ | .munmap _ _ => r

/-- `CallBackFunc` on `&clientDatas[index]`. -/
def callBackFunc (r : Registry) (index : Int) : Registry :=
  let fd := (r.clientDatas index).sockFd
  ((r.epollDel fd).close fd).count (-1)

/-- `main` after `Init`: the client data and the timer of an accepted connection. -/
def register (r : Registry) (connfd now : Int) : Except Timer.Fault Registry := do
  let (heap, tempTimer) := clientTimer r.timerHeap connfd now
  let timerHeap ← heap.addTimer (some tempTimer)
  .ok { r with
    clientDatas := Function.update r.clientDatas connfd ⟨connfd, some tempTimer⟩
    timerHeap
    lastActivity := Function.update r.lastActivity connfd now
    clock := now }

/-- `tempTimer->callback_func`, where it is read. -/
def callbackFunc (r : Registry) : Option TimerPtr → Except Fault (Option Callback)
  | none => .error (.memory .nullDeref)
  | some timer => .ok (r.timerHeap.timers timer).callbackFunc

/-- `tempTimer->callback_func(&clientDatas[sockfd])` -/
def callBack (r : Registry) (tempTimer : Option TimerPtr) (sockfd : Int) : Except Fault Registry := do
  match ← r.callbackFunc tempTimer with
  | none => .error .nullCallback
  | some .callBackFunc => .ok (r.callBackFunc sockfd)

def delTimer (r : Registry) (tempTimer : Option TimerPtr) : Registry :=
  { r with timerHeap := r.timerHeap.delTimer tempTimer }

/-- The branch of a hang-up. -/
def hangUp (r : Registry) (sockfd : Int) : Except Fault Registry := do
  let tempTimer := (r.clientDatas sockfd).timer
  let r ← r.callBack tempTimer sockfd
  .ok (r.delTimer tempTimer)

/-- The branch of a `Read` that fails: a null callback is left alone. -/
def readFailed (r : Registry) (sockfd : Int) : Except Fault Registry := do
  let tempTimer := (r.clientDatas sockfd).timer
  match ← r.callbackFunc tempTimer with
  | none => .ok r
  | some _ =>
    let r ← r.callBack tempTimer sockfd
    .ok (r.delTimer tempTimer)

/-- The branch of a `Write` that fails: a null timer is left alone. -/
def writeFailed (r : Registry) (sockfd : Int) : Except Fault Registry := do
  let tempTimer := (r.clientDatas sockfd).timer
  let r ← if tempTimer.isSome then r.callBack tempTimer sockfd else .ok r
  .ok (r.delTimer tempTimer)

/-- What follows a `Read` or a `Write` that succeeds, at time `now`. -/
def renew (r : Registry) (sockfd now : Int) : Except Timer.Fault Registry := do
  let r := { r with lastActivity := Function.update r.lastActivity sockfd now, clock := now }
  match (r.clientDatas sockfd).timer with
  | none => .ok r
  | some tempTimer =>
    let timerHeap ← (r.timerHeap.setExpireTime tempTimer (now + 3 * timeslot)).adjust tempTimer
    .ok { r with timerHeap }

/-- `Tick` at time `now`, with its callbacks. -/
def tick (r : Registry) (now : Int) : Except Timer.Fault Registry := do
  let (timerHeap, called) ← r.timerHeap.tick now
  .ok (called.foldl callBackFunc { r with timerHeap, clock := now })

/-- The descriptors of the open connections. -/
def openFds (r : Registry) : Finset Int :=
  ((Finset.range maxFd.toNat).image Int.ofNat).filter fun fd => (r.fds fd).isSome

end Registry

end WSlyh.Server
