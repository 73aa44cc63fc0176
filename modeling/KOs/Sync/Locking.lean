import KOs.Data.Locks

namespace KOs.Sync.Spin

open KOs.Data KOs.Data.LockCode

/-! The spinlocks that timers and sockets take, and the functions of the rest of the kernel that take some.

Of each function there are the locks that it takes, in order; a test is left open where the outcome does
not turn on it.  `holding` is a region between `spin_lock_irqsave` and `spin_unlock_irqstore`.  The locks of
a kind of object, of which no function takes two at a time, count as one.
-/

inductive SpinLock where
  | timerLock
  | clockLock
  | mapLock
  | allocLock
  | cache
  | schedLock
  | thread
  /-- The lock of another thread, the next one of a processor. -/
  | nextThread
  | semaphore
  | pitLock
  | arpCacheLock
  | arpCacheEntry
  | familyLock
  /-- `port_lock` of `net/ip/tcp.c`. -/
  | portLock
  /-- `tcp_ephemeral_lock` of `net/ip/udp.c`. -/
  | udpEphemeralLock
  | tcpListen
  | tcpConn
deriving DecidableEq, Repr

abbrev Code := LockCode SpinLock

/-! The clock, `time/clock.c`, and the speaker, `arch/pit.c`. -/

def uptime : Code := holding .clockLock []

def sleep : Code := holding .clockLock []

def spkrSetFreq : Code := holding .pitLock []

def endBeep : Code := spkrSetFreq

/-! Memory: `map_pages`, `mm/mm.c` and `mm/cache.c`. -/

def mapPages : Code := holding .mapLock []

def allocPages : Code := holding .allocLock [mapPages]

def freePage : Code := holding .allocLock []

def cacheAlloc : Code := holding .cache [oneOf [skip, allocPages]]

def cacheFree : Code := holding .cache []

def kmalloc : Code := oneOf [cacheAlloc, allocPages]

def kfree : Code := oneOf [skip, cacheFree, loop freePage]

/-! Threads and semaphores, `sched/sched.c`, `sync/semaphore.c` and its headers. -/

def doWake : Code := holding .thread []

def threadWake : Code := holding .schedLock [doWake]

def threadSleepPrepare : Code := holding .thread []

/-- `lock_next_current` takes the lock of the next thread unless it is the one of the old thread. -/
def schedSwitch : Code :=
  steps [acquire .schedLock, acquire .thread,
    oneOf [release .thread, steps [acquire .nextThread, release .thread, release .nextThread]],
    release .schedLock, uptime]

def semaphoreWaitlistAdd : Code := holding .thread []

def semaphoreWaitlistRm : Code := holding .thread []

def semaphoreUp : Code := holding .semaphore [oneOf [skip, steps [semaphoreWaitlistRm, threadWake]]]

def semaphoreDownYield : Code :=
  steps [threadSleepPrepare, release .semaphore, schedSwitch, acquire .semaphore]

/-- `try_semaphore_down_while_condition`; it gets a unit at once, gets one later or gives up. -/
def trySemaphoreDownWhileCondition : Code :=
  holding .semaphore [oneOf [skip,
    steps [semaphoreWaitlistAdd, loop semaphoreDownYield],
    steps [semaphoreWaitlistAdd, loop semaphoreDownYield, semaphoreWaitlistRm]]]

/-! Timers, `time/timer.c`. -/

def timerCreate : Code := steps [cacheAlloc, holding .timerLock []]

end KOs.Sync.Spin
