import OsToyI386.Kernel.Task

/-!
# Mutexes and semaphores

`ipc/mutex.c` and `ipc/sem.c`. Both run with interrupts off up to the dispatch, so each
call is one step; what it leaves to its caller are epilogues.
-/

namespace OsToyI386

def reinMutexInit : ReinMutex := ⟨none, 0#32⟩

def reinMutexLock (lock : MutexPtr) (s : Sys) : Sys × List Epilogue :=
  let (state, s) := irqEnterProtection s
  let currTask := s.currTask
  let x := s.mutex lock
  if x.locker = 0#32 then
    let s := (s.setMutex lock ⟨currTask, x.locker + 1#32⟩).emit (.lockTake currTask lock)
    (s, [⟨.reinMutexLock lock, state⟩])
  else if x.owner = currTask then
    let s := (s.setMutex lock { x with locker := x.locker + 1#32 }).emit (.lockTake currTask lock)
    (s, [⟨.reinMutexLock lock, state⟩])
  else
    match currTask with
    | none => (s.die .nullPointer, [])
    | some t =>
      let s := taskSetBlock t s
      let s := (s.insertLast (.mutexWait lock) ⟨t, .waitNode⟩).emit (.lockBlock t lock)
      let (s, es) := taskDispatch s
      (s, es ++ [⟨.reinMutexLock lock, state⟩])

/-- Hand-over: the first waiter becomes ready and owns the mutex before it runs. -/
def handOver (lock : MutexPtr) (s : Sys) : Sys :=
  if listCount s.heap (.mutexWait lock) ≠ 0 then
    let (heap, node) := listPopFirst s.heap (.mutexWait lock)
    match node with
    | none => s.die .nullPointer
    | some nodeNewOwner =>
      let newOwner := containerOf nodeNewOwner
      let s := taskSetReady newOwner { s with heap := heap }
      (s.setMutex lock ⟨some newOwner, (s.mutex lock).locker + 1#32⟩).emit (.lockHand newOwner lock)
  else s

/-- A failed `ASSERT` ends in `panic`, which never returns. -/
def reinMutexUnlock (lock : MutexPtr) (s : Sys) : Sys × List Epilogue :=
  let (state, s) := irqEnterProtection s
  let currTask := s.currTask
  let x := s.mutex lock
  if x.locker = 0#32 then (s.die .assertFailed, [])
  else if x.owner ≠ currTask then (s.die .assertFailed, [])
  else
    let s := (s.setMutex lock { x with locker := x.locker - 1#32 }).emit (.unlock currTask lock)
    let s :=
      if x.locker - 1#32 = 0#32 then handOver lock (s.setMutex lock ⟨none, x.locker - 1#32⟩)
      else s
    (s, [⟨.reinMutexUnlock lock, state⟩])

def semWait (sem : SemPtr) (s : Sys) : Sys × List Epilogue :=
  let (state, s) := irqEnterProtection s
  if s.sem sem > 0 then
    ((s.setSem sem (s.sem sem - 1)).emit (.semTake s.currTask sem), [⟨.semWait sem, state⟩])
  else
    match s.currTask with
    | none => (s.die .nullPointer, [])
    | some curr =>
      let s := taskSetBlock curr s
      let s := (s.insertLast (.semWait sem) ⟨curr, .waitNode⟩).emit (.semBlock curr sem)
      let (s, es) := taskDispatch s
      (s, es ++ [⟨.semWait sem, state⟩])

def semNotify (sem : SemPtr) (s : Sys) : Sys × List Epilogue :=
  let (state, s) := irqEnterProtection s
  let s := s.emit (.semNotify sem)
  if listCount s.heap (.semWait sem) ≠ 0 then
    let (heap, node) := listPopFirst s.heap (.semWait sem)
    match node with
    | none => (s.die .nullPointer, [])
    | some node =>
      let task := containerOf node
      let s := (taskSetReady task { s with heap := heap }).emit (.semPop task sem)
      let (s, es) := taskDispatch s
      (s, es ++ [⟨.semNotify sem, state⟩])
  else (s.setSem sem (s.sem sem + 1), [⟨.semNotify sem, state⟩])

/-- The count is read between the two protections; the caller gets it in a register. -/
def semCount (sem : SemPtr) (s : Sys) : Sys × List Epilogue :=
  let (state, s) := irqEnterProtection s
  (s, [⟨.semCount sem, state⟩])

end OsToyI386
