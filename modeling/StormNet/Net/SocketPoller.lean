/-
  Net/SocketPoller.lean --- `SocketPoller` of `net/socket_poller.cpp` over a kernel
  epoll instance.

  The class keeps a mask for each fd (`m_fdEvent`) beside the kernel's own table.
  `addToRead` and `addToWrite` go to the kernel without touching the mask; `addEvent`
  and `delEvent` derive what they ask of the kernel from it.  The kernel refuses to add
  an fd twice and to change one that it does not have.
-/
import Mathlib.Logic.Function.Basic

set_option autoImplicit false

namespace StormNet.Net

open Function (update update_self update_of_ne)

/-- A set of `EP_READ` and `EP_WRITE`. -/
structure EventMask where
  read : Bool
  write : Bool
  deriving DecidableEq, Repr

/-- `EP_NONE`. -/
def EventMask.none : EventMask := ⟨false, false⟩

/-- `EP_READ`. -/
def EventMask.epRead : EventMask := ⟨true, false⟩

/-- `EP_WRITE`. -/
def EventMask.epWrite : EventMask := ⟨false, true⟩

/-- `mask | e`. -/
def EventMask.union (mask e : EventMask) : EventMask :=
  ⟨mask.read || e.read, mask.write || e.write⟩

/-- `mask & (~e)`. -/
def EventMask.diff (mask e : EventMask) : EventMask :=
  ⟨mask.read && !e.read, mask.write && !e.write⟩

/-- An `epoll_event`: `EPOLLIN`, `EPOLLOUT` and the slot in `data.ptr`.  `EPOLLET` is
always set. -/
structure EpollEvent where
  epollIn : Bool
  epollOut : Bool
  ud : Nat
  deriving DecidableEq, Repr

/-- The operation of an `epoll_ctl`. -/
inductive EpollOp where
  | add
  | mod
  | del
  deriving DecidableEq, Repr

/-- The kernel's table of an epoll instance. -/
abbrev EpollTable := Nat → Option EpollEvent

/-- `epoll_ctl`: the table behind the call, and whether it succeeds. -/
def epollCtl (table : EpollTable) (op : EpollOp) (fd : Nat) (event : EpollEvent) :
    EpollTable × Bool :=
  match op, table fd with
  | .add, .none => (update table fd (some event), true)
  | .mod, some _ => (update table fd (some event), true)
  | .del, some _ => (update table fd .none, true)
  | _, _ => (table, false)

/-- `SocketPoller` with its epoll instance. -/
structure SocketPoller where
  /-- `m_fdEvent` -/
  fdEvent : Nat → EventMask
  epoll : EpollTable

namespace SocketPoller

/-- A poller that knows no fd. -/
def new : SocketPoller := ⟨fun _ => .none, fun _ => .none⟩

/-- `addToRead`. -/
def addToRead (p : SocketPoller) (fd ud : Nat) : SocketPoller × Bool :=
  let r := epollCtl p.epoll .add fd ⟨true, false, ud⟩
  ({ p with epoll := r.1 }, r.2)

/-- `addToWrite`. -/
def addToWrite (p : SocketPoller) (fd ud : Nat) (enable : Bool) : SocketPoller :=
  { p with epoll := (epollCtl p.epoll .mod fd ⟨true, enable, ud⟩).1 }

/-- `del`; the event of an `EPOLL_CTL_DEL` is not read. -/
def del (p : SocketPoller) (fd : Nat) : SocketPoller :=
  if p.fdEvent fd = .none then p
  else
    { fdEvent := update p.fdEvent fd .none
      epoll := (epollCtl p.epoll .del fd ⟨false, false, 0⟩).1 }

/-- `addEvent`. -/
def addEvent (p : SocketPoller) (fd : Nat) (e : EventMask) (ud : Nat) : SocketPoller :=
  let option := if p.fdEvent fd = .none then EpollOp.add else .mod
  let mask := (p.fdEvent fd).union e
  { fdEvent := update p.fdEvent fd mask
    epoll := (epollCtl p.epoll option fd ⟨mask.read, mask.write, ud⟩).1 }

/-- `delEvent`. -/
def delEvent (p : SocketPoller) (fd : Nat) (e : EventMask) (ud : Nat) : SocketPoller :=
  if p.fdEvent fd = .none then p
  else
    let mask := (p.fdEvent fd).diff e
    let option := if mask = .none then EpollOp.del else .mod
    { fdEvent := update p.fdEvent fd mask
      epoll := (epollCtl p.epoll option fd ⟨mask.read, mask.write, ud⟩).1 }

/-- What `close(fd)` does to the epoll instance: the kernel drops the fd. -/
def kernelClose (p : SocketPoller) (fd : Nat) : SocketPoller :=
  { p with epoll := update p.epoll fd .none }

/-! ## Registrations -/

/-- The fd is registered for `EPOLLOUT`. -/
def ArmedOut (p : SocketPoller) (fd : Nat) : Prop :=
  ∃ event, p.epoll fd = some event ∧ event.epollOut = true

/-- The fd is registered, and dropping write interest leaves it so: the mask is empty,
as for an accepted fd, or has `EP_READ`. -/
def KeepsReading (p : SocketPoller) (fd : Nat) : Prop :=
  (p.epoll fd).isSome ∧ (p.fdEvent fd = .none ∨ (p.fdEvent fd).read = true)

/-- The fd is not known: no registration and no mask. -/
def Unknown (p : SocketPoller) (fd : Nat) : Prop :=
  p.epoll fd = .none ∧ p.fdEvent fd = .none

variable {p q : SocketPoller} {fd ud : Nat}

theorem KeepsReading.congr (h : p.KeepsReading fd) (hepoll : q.epoll fd = p.epoll fd)
    (hmask : q.fdEvent fd = p.fdEvent fd) : q.KeepsReading fd := by
  simpa only [KeepsReading, hepoll, hmask] using h

theorem ArmedOut.congr (h : p.ArmedOut fd) (hepoll : q.epoll fd = p.epoll fd) :
    q.ArmedOut fd := by
  simpa only [ArmedOut, hepoll] using h

theorem epollCtl_mod {table : EpollTable} (h : (table fd).isSome) (event : EpollEvent) :
    (epollCtl table .mod fd event).1 = update table fd (some event) := by
  obtain ⟨old, hold⟩ := Option.isSome_iff_exists.mp h
  simp [epollCtl, hold]

theorem epollCtl_add {table : EpollTable} (h : table fd = .none) (event : EpollEvent) :
    (epollCtl table .add fd event).1 = update table fd (some event) := by
  simp [epollCtl, h]

theorem epollCtl_of_ne {table : EpollTable} {op : EpollOp} {event : EpollEvent} {n : Nat}
    (h : n ≠ fd) : (epollCtl table op fd event).1 n = table n := by
  unfold epollCtl
  split <;> simp [update_of_ne h]

/-- Behind a call, a registration is the one of the call or an old one. -/
theorem epollCtl_eq_some {table : EpollTable} {op : EpollOp} {event event' : EpollEvent}
    {n : Nat} (h : (epollCtl table op fd event).1 n = some event') :
    n = fd ∧ event' = event ∨ table n = some event' := by
  by_cases hn : n = fd
  · subst hn
    unfold epollCtl at h
    split at h
    · simp only [update_self, Option.some.injEq] at h
      exact .inl ⟨rfl, h.symm⟩
    · simp only [update_self, Option.some.injEq] at h
      exact .inl ⟨rfl, h.symm⟩
    · simp only [update_self] at h
      cases h
    · exact .inr h
  · rw [epollCtl_of_ne hn] at h
    exact .inr h

/-- A deletion adds nothing. -/
theorem epollCtl_del {table : EpollTable} {event event' : EpollEvent} {n : Nat}
    (h : (epollCtl table .del fd event).1 n = some event') : table n = some event' := by
  by_cases hn : n = fd
  · subst hn
    cases htable : table n <;> simp [epollCtl, htable] at h
  · rwa [epollCtl_of_ne hn] at h

/-- From `p` to `q` registrations are dropped, at most the one of `fd` is new and points to
`ud`, and the masks of other fds stay. -/
structure Retargets (p q : SocketPoller) (fd ud : Nat) : Prop where
  epoll : ∀ n event, q.epoll n = some event → n = fd ∧ event.ud = ud ∨ p.epoll n = some event
  masks : ∀ n, n ≠ fd → q.fdEvent n = p.fdEvent n

theorem Retargets.refl (p : SocketPoller) (fd ud : Nat) : p.Retargets p fd ud :=
  ⟨fun _ _ h => .inr h, fun _ _ => rfl⟩

theorem retargets_epollCtl {op : EpollOp} {event : EpollEvent} {mask : Nat → EventMask}
    (hud : event.ud = ud) (hmask : ∀ n, n ≠ fd → mask n = p.fdEvent n) :
    p.Retargets ⟨mask, (epollCtl p.epoll op fd event).1⟩ fd ud := by
  refine ⟨?_, hmask⟩
  intro n event' h
  rcases epollCtl_eq_some h with ⟨hn, he⟩ | h
  · exact .inl ⟨hn, he ▸ hud⟩
  · exact .inr h

theorem retargets_addToRead : p.Retargets (p.addToRead fd ud).1 fd ud :=
  retargets_epollCtl rfl (fun _ _ => rfl)

theorem retargets_addToWrite {enable : Bool} : p.Retargets (p.addToWrite fd ud enable) fd ud :=
  retargets_epollCtl rfl (fun _ _ => rfl)

theorem retargets_addEvent {e : EventMask} : p.Retargets (p.addEvent fd e ud) fd ud :=
  retargets_epollCtl rfl (fun _ hn => update_of_ne hn _ _)

theorem retargets_delEvent {e : EventMask} : p.Retargets (p.delEvent fd e ud) fd ud := by
  unfold delEvent
  split
  · exact .refl p fd ud
  · exact retargets_epollCtl rfl (fun _ hn => update_of_ne hn _ _)

/-- `del` forgets the mask of its fd and keeps the others. -/
theorem fdEvent_del (n : Nat) : (p.del fd).fdEvent n = if n = fd then .none else p.fdEvent n := by
  unfold del
  by_cases hn : n = fd
  · subst hn
    split
    · rename_i hmask
      rw [if_pos rfl, hmask]
    · simp
  · rw [if_neg hn]
    split
    · rfl
    · exact update_of_ne hn _ _

theorem epoll_del {n : Nat} {event : EpollEvent} (h : (p.del fd).epoll n = some event) :
    p.epoll n = some event := by
  unfold del at h
  split at h
  · exact h
  · exact epollCtl_del h

/-! ### Other fds -/

section Others

variable {e : EventMask} {n : Nat}

/-- A registered fd is not added again, and other fds are left alone. -/
theorem epoll_addToRead (h : p.epoll n ≠ .none) :
    (p.addToRead fd ud).1.epoll n = p.epoll n := by
  by_cases hn : n = fd
  · obtain ⟨event, hevent⟩ := Option.ne_none_iff_exists'.mp h
    subst hn
    simp only [addToRead, epollCtl, hevent]
  · exact epollCtl_of_ne hn

theorem epoll_addToWrite {enable : Bool} (h : n ≠ fd) :
    (p.addToWrite fd ud enable).epoll n = p.epoll n :=
  epollCtl_of_ne h

theorem epoll_addEvent (h : n ≠ fd) : (p.addEvent fd e ud).epoll n = p.epoll n :=
  epollCtl_of_ne h

theorem epoll_delEvent (h : n ≠ fd) : (p.delEvent fd e ud).epoll n = p.epoll n := by
  unfold delEvent
  split
  · rfl
  · exact epollCtl_of_ne h

theorem epoll_del_of_ne (h : n ≠ fd) : (p.del fd).epoll n = p.epoll n := by
  unfold del
  split
  · rfl
  · exact epollCtl_of_ne h

theorem epoll_kernelClose (h : n ≠ fd) : (p.kernelClose fd).epoll n = p.epoll n :=
  update_of_ne h _ _

end Others

/-- `addToWrite` on a registered fd arms it. -/
theorem armedOut_addToWrite (h : p.KeepsReading fd) : (p.addToWrite fd ud true).ArmedOut fd := by
  refine ⟨⟨true, true, ud⟩, ?_, rfl⟩
  simp only [addToWrite, epollCtl_mod h.1, update_self]

theorem keepsReading_addToWrite (h : p.KeepsReading fd) (enable : Bool) :
    (p.addToWrite fd ud enable).KeepsReading fd := by
  refine ⟨?_, h.2⟩
  simp only [addToWrite, epollCtl_mod h.1, update_self, Option.isSome_some]

/-- `delEvent(EP_WRITE)` keeps such an fd registered: with an empty mask it does
nothing, and otherwise `EP_READ` stays. -/
theorem keepsReading_delEvent (h : p.KeepsReading fd) :
    (p.delEvent fd .epWrite ud).KeepsReading fd := by
  unfold delEvent
  by_cases hmask : p.fdEvent fd = .none
  · rw [if_pos hmask]
    exact h
  · rw [if_neg hmask]
    have hread : (p.fdEvent fd).read = true := h.2.resolve_left hmask
    have hdiff : ((p.fdEvent fd).diff .epWrite).read = true := by
      simp [EventMask.diff, EventMask.epWrite, hread]
    have hne : (p.fdEvent fd).diff .epWrite ≠ .none := by
      intro heq
      rw [heq] at hdiff
      cases hdiff
    refine ⟨?_, .inr ?_⟩
    · simp only [if_neg hne, epollCtl_mod h.1, update_self, Option.isSome_some]
    · simpa only [update_self] using hdiff

/-! ## How a connected fd got its registration -/

/-- The ways a connection becomes connected. -/
inductive Opening where
  /-- `handleAccept` -/
  | accepted
  /-- `connectSocket`, when `connect()` succeeds at once -/
  | connectedAtOnce
  /-- `connectSocket` with `EINPROGRESS`, and `handleConnect` -/
  | connecting
  deriving DecidableEq, Repr

/-- The poller's calls on the way. -/
def opened (p : SocketPoller) (fd ud : Nat) : Opening → SocketPoller
  | .accepted => (p.addToRead fd ud).1
  | .connectedAtOnce => p.addEvent fd .epRead ud
  | .connecting => ((p.addEvent fd .epWrite ud).delEvent fd .epWrite ud).addEvent fd .epRead ud

/-- However it was opened, a connection keeps its registration. -/
theorem keepsReading_opened (h : p.Unknown fd) (opening : Opening) :
    (p.opened fd ud opening).KeepsReading fd := by
  obtain ⟨hepoll, hmask⟩ := h
  cases opening with
  | accepted =>
    refine ⟨?_, .inl hmask⟩
    simp [opened, addToRead, epollCtl_add hepoll]
  | connectedAtOnce =>
    refine ⟨?_, .inr ?_⟩
    · simp [opened, addEvent, hmask, epollCtl_add hepoll]
    · simp [opened, addEvent, hmask, EventMask.union, EventMask.epRead]
  | connecting =>
    have hw : EventMask.none.union .epWrite = .epWrite := rfl
    have hd : EventMask.epWrite.diff .epWrite = .none := rfl
    have hr : (EventMask.none.union .epRead).read = true := rfl
    have hne : EventMask.epWrite ≠ .none := by decide
    refine ⟨?_, .inr ?_⟩ <;>
      simp [opened, addEvent, delEvent, hmask, hw, hd, hr, hne, epollCtl, hepoll]

end SocketPoller

end StormNet.Net
