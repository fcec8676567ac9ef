/-
  Net/LoopInvariant.lean --- what holds of a `SocketLoop` whose slots are not pulled away.

  `Sound` says whose the open files are: the fd of a slot was opened for its occupant, and
  epoll knows an fd only for the slot that has it.  It is kept by the steps that `Admits`
  lets through.  `connectSocket` does not look at the slot it is for, so a step is let
  through only if the slot has no fd and no caller is about to fill it; a slot whose
  connection attempt fails at the moment is not taken either.

  In such runs an fd that is not open is unknown to the poller (`new_fd_unknown`), which
  is what the send path asks of the fd of a new connection.
-/
import StormNet.Net.LoopChange

set_option autoImplicit false

namespace StormNet.Net

open StormNet.Foundation (Runs)
open Function (update update_self update_of_ne forall_update_iff)

namespace SocketLoop

/-- No caller has the slot reserved for its present occupant. -/
def Unreserved (l : SocketLoop) (i : Nat) : Prop :=
  ∀ op, l.call (l.occupant i) ≠ some (.reserved op)

/-- The step does not pull a slot away. -/
structure Admits (l : SocketLoop) (a : Action) : Prop where
  reserve : ∀ i, l.picks a = some i → l.pc.fails ≠ some i
  connect : ∀ i, l.connects a = some i →
    (l.slot i).fd = none ∧ (l.slot i).id = i ∧ l.Unreserved i

/-- Whose the open files are. -/
structure Sound (l : SocketLoop) : Prop where
  /-- the fd of a slot belongs to its occupant, until it is closed -/
  fds : ∀ i fd, (l.slot i).fd = some fd → l.pc.closes ≠ some i →
    ∃ f, l.files fd = some f ∧ f.owner = l.occupant i
  numbered : ∀ i, (l.slot i).status ≠ .idle → (l.slot i).id = i
  /-- epoll points from an fd to the slot that has it -/
  registered : ∀ fd event, l.poll.epoll fd = some event →
    (l.slot event.ud).fd = some fd ∧ l.pc.closes ≠ some event.ud
  free : ∀ i, (l.slot i).status = .idle ∨ (l.slot i).status = .reserse → (l.slot i).fd = none
  connected : ∀ i, (l.slot i).status = .connected → (l.slot i).fd ≠ none
  reserved : ∀ c op, l.call c = some (.reserved op) → l.occupant c.slot = c ∧
    (l.slot c.slot).status = .reserse ∧ ∀ fd, op.fd = some fd → l.files fd = some ⟨c, true⟩
  calls : ∀ c, l.call c ≠ none →
    l.hash c.slot = c.slot ∧ (l.slot c.slot).id = c.slot ∧ c.gen ≤ l.gen c.slot
  failing : ∀ i, l.pc.fails = some i → (l.slot i).fd = none ∧ l.Unreserved i
  closing : ∀ i, l.pc.closes = some i → l.inUse i

theorem inUse_iff {l : SocketLoop} {i : Nat} :
    l.inUse i ↔ ¬ ((l.slot i).status = .idle ∨ (l.slot i).status = .reserse) := by
  simp [inUse]

section Sound

variable {l l₀ : SocketLoop} {a : Action} {i : Nat}

theorem sound_new (maxSocket efd : Nat) : (new maxSocket efd).Sound := by
  have hother : ∀ i, i ≠ 0 → (new maxSocket efd).slot i = {} := by
    intro i hi
    simp only [new, update_of_ne hi]
  have hzero : (new maxSocket efd).slot 0 =
      { fd := some efd, type := .notify, status := .listen } := by
    simp only [new, update_self]
  have hslot : ∀ i, (new maxSocket efd).slot i = {} ∨ i = 0 := fun i =>
    (Decidable.em (i = 0)).elim .inr (fun hi => .inl (hother i hi))
  constructor
  · intro i fd hfd _
    rcases hslot i with hi | rfl
    · rw [hi] at hfd
      cases hfd
    · rw [hzero] at hfd
      cases hfd
      exact ⟨⟨⟨0, 0⟩, false⟩, by simp only [new, update_self], rfl⟩
  · intro i hi
    rcases hslot i with h | rfl
    · rw [h] at hi
      exact absurd rfl hi
    · rw [hzero]
  · intro fd event hevent
    have hretargets : SocketPoller.new.Retargets (SocketPoller.new.addToRead efd 0).1 efd 0 :=
      SocketPoller.retargets_addToRead
    rcases hretargets.epoll fd event hevent with ⟨rfl, hud⟩ | hnew
    · rw [hud, hzero]
      exact ⟨rfl, by rintro ⟨⟩⟩
    · cases hnew
  · intro i hi
    rcases hslot i with h | rfl
    · rw [h]
    · rw [hzero] at hi
      rcases hi with hi | hi <;> cases hi
  · intro i hi
    rcases hslot i with h | rfl
    · rw [h] at hi
      cases hi
    · rw [hzero] at hi
      cases hi
  · rintro c op ⟨⟩
  · intro c hc
    exact absurd rfl hc
  · rintro i ⟨⟩
  · rintro i ⟨⟩

theorem Sound.ids (h : l.Sound) : l.Ids := by
  intro i fd hfd
  apply h.numbered i
  intro hidle
  rw [h.free i (.inl hidle)] at hfd
  cases hfd

/-- Moving on from and to places where nothing is closed. -/
theorem Sound.move (h : l.Sound) {pc : Pc} (hfrom : l.pc.closes = none)
    (hto : pc.closes = none)
    (hfails : ∀ i, pc.fails = some i → (l.slot i).fd = none ∧ l.Unreserved i) :
    Sound { l with pc := pc } := by
  refine { h with fds := ?_, registered := ?_, failing := hfails, closing := ?_ }
  · intro i fd hfd _
    exact h.fds i fd hfd (by simp [hfrom])
  · intro fd event hevent
    refine ⟨(h.registered fd event hevent).1, ?_⟩
    show pc.closes ≠ _
    simp [hto]
  · intro i hi
    exact absurd (hto.symm.trans hi) (by simp)

/-- What each slot says of itself, with the slot `i` assigned. -/
theorem Sound.slots (h : l.Sound) {s : Socket} (hnumbered : s.status ≠ .idle → s.id = i)
    (hfree : s.status = .idle ∨ s.status = .reserse → s.fd = none)
    (hconnected : s.status = .connected → s.fd ≠ none) :
    (∀ j, (update l.slot i s j).status ≠ .idle → (update l.slot i s j).id = j) ∧
    (∀ j, (update l.slot i s j).status = .idle ∨ (update l.slot i s j).status = .reserse →
      (update l.slot i s j).fd = none) ∧
    (∀ j, (update l.slot i s j).status = .connected → (update l.slot i s j).fd ≠ none) := by
  refine ⟨?_, ?_, ?_⟩
  · exact (forall_update_iff l.slot fun j t => t.status ≠ .idle → t.id = j).mpr
      ⟨hnumbered, fun j _ => h.numbered j⟩
  · exact (forall_update_iff l.slot fun _ t =>
      t.status = .idle ∨ t.status = .reserse → t.fd = none).mpr ⟨hfree, fun j _ => h.free j⟩
  · exact (forall_update_iff l.slot fun _ t => t.status = .connected → t.fd ≠ none).mpr
      ⟨hconnected, fun j _ => h.connected j⟩

/-- A change of a slot that leaves its fd and its number. -/
theorem Sound.setSlot (h : l.Sound) {s : Socket} (hfd : s.fd = (l.slot i).fd)
    (hid : s.id = (l.slot i).id) (hnumbered : s.status ≠ .idle → s.id = i)
    (hfree : s.status = .idle ∨ s.status = .reserse → s.fd = none)
    (hconnected : s.status = .connected → s.fd ≠ none)
    (hsame : s.status = (l.slot i).status ∨ l.Unreserved i ∧ l.pc.closes ≠ some i) :
    Sound { l with slot := update l.slot i s } := by
  have hfds : ∀ j, (update l.slot i s j).fd = (l.slot j).fd := field_update Socket.fd hfd
  have hids : ∀ j, (update l.slot i s j).id = (l.slot j).id := field_update Socket.id hid
  obtain ⟨hnumbered, hfree, hconnected⟩ := h.slots hnumbered hfree hconnected
  constructor
  · intro j fd hj hcloses
    exact h.fds j fd ((hfds j).symm.trans hj) hcloses
  · exact hnumbered
  · intro fd event hevent
    exact ⟨(hfds _).trans (h.registered fd event hevent).1, (h.registered fd event hevent).2⟩
  · exact hfree
  · exact hconnected
  · intro c op hc
    obtain ⟨hocc, hst, hfile⟩ := h.reserved c op hc
    refine ⟨hocc, ?_, hfile⟩
    by_cases hci : c.slot = i
    · rcases hsame with hsame | ⟨hnone, -⟩
      · simp only [hci, update_self, hsame]
        exact hci ▸ hst
      · apply absurd hc
        rw [← hocc, hci]
        exact hnone op
    · simp only [update_of_ne hci]
      exact hst
  · intro c hc
    obtain ⟨hhash, hcid, hgen⟩ := h.calls c hc
    exact ⟨hhash, (hids _).trans hcid, hgen⟩
  · intro j hj
    exact ⟨(hfds j).trans (h.failing j hj).1, (h.failing j hj).2⟩
  · intro j hj
    have huse := h.closing j hj
    rw [inUse_iff] at huse ⊢
    by_cases hji : j = i
    · rcases hsame with hsame | ⟨-, hnone⟩
      · subst hji
        simpa only [update_self, hsame] using huse
      · exact absurd (hji ▸ hj) hnone
    · simpa only [update_of_ne hji] using huse

/-- A slot without an fd gets one that is open for its occupant. -/
theorem Sound.openSlot (h : l.Sound) {s : Socket} {fd : Nat} {f : File}
    (hnone : (l.slot i).fd = none) (hfd : s.fd = some fd) (hid : s.id = i)
    (hf : l.files fd = some f) (howner : f.owner = l.occupant i)
    (hstatus : ¬ (s.status = .idle ∨ s.status = .reserse)) (hfree : l.Unreserved i)
    (hfails : l.pc.fails ≠ some i) : Sound { l with slot := update l.slot i s } := by
  obtain ⟨hnumbered, hfree', hconnected⟩ := h.slots (s := s) (fun _ => hid)
    (fun hs => absurd hs hstatus) (fun _ => by simp [hfd])
  constructor
  · intro j n hj hcloses
    by_cases hji : j = i
    · subst hji
      simp only [update_self, hfd, Option.some.injEq] at hj
      exact ⟨f, hj ▸ hf, howner⟩
    · simp only [update_of_ne hji] at hj
      exact h.fds j n hj hcloses
  · exact hnumbered
  · intro n event hevent
    obtain ⟨hslot, hcloses⟩ := h.registered n event hevent
    have hne : event.ud ≠ i := by
      rintro rfl
      rw [hnone] at hslot
      cases hslot
    exact ⟨by simpa only [update_of_ne hne] using hslot, hcloses⟩
  · exact hfree'
  · exact hconnected
  · intro c op hc
    obtain ⟨hocc, hst, hfile⟩ := h.reserved c op hc
    have hne : c.slot ≠ i := by
      intro hci
      apply hfree op
      rw [← hci, hocc]
      exact hc
    exact ⟨hocc, by simpa only [update_of_ne hne] using hst, hfile⟩
  · intro c hc
    obtain ⟨hhash, hcid, hgen⟩ := h.calls c hc
    refine ⟨hhash, ?_, hgen⟩
    by_cases hci : c.slot = i
    · simp only [hci, update_self, hid]
    · simpa only [update_of_ne hci] using hcid
  · intro j hj
    have hji : j ≠ i := fun hji => hfails (hji ▸ hj)
    exact ⟨by simpa only [update_of_ne hji] using (h.failing j hj).1, (h.failing j hj).2⟩
  · intro j hj
    rw [inUse_iff]
    by_cases hji : j = i
    · subst hji
      simpa only [update_self] using hstatus
    · simpa only [update_of_ne hji] using inUse_iff.mp (h.closing j hj)

/-- What is open stays open when another file is opened. -/
theorem file_update {files : Nat → Option File} {fd n : Nat} {f g : File} (hfd : files fd = none)
    (hn : files n = some g) : update files fd (some f) n = some g := by
  have hne : n ≠ fd := by
    intro heq
    rw [heq, hfd] at hn
    cases hn
  rw [update_of_ne hne]
  exact hn

/-- A file is opened under a new fd. -/
theorem Sound.openFile (h : l.Sound) {fd : Nat} (hfd : l.files fd = none) (f : File) :
    Sound { l with files := update l.files fd (some f) } := by
  refine { h with fds := ?_, reserved := ?_ }
  · intro j n hj hcloses
    obtain ⟨g, hg, howner⟩ := h.fds j n hj hcloses
    exact ⟨g, file_update hfd hg, howner⟩
  · intro c op hc
    obtain ⟨hocc, hst, hfile⟩ := h.reserved c op hc
    exact ⟨hocc, hst, fun n hn => file_update hfd (hfile n hn)⟩

/-- `getNewSocket` takes an idle slot for its next occupant. -/
theorem Sound.take (h : l.Sound) (hidle : (l.slot i).status = .idle)
    (hfails : l.pc.fails ≠ some i) : Sound { l with
      slot := update l.slot i { l.slot i with id := i, fd := none, status := .reserse }
      gen := update l.gen i (l.gen i + 1) } := by
  have hnone : (l.slot i).fd = none := h.free i (.inl hidle)
  have hocc : ∀ j, j ≠ i → (⟨j, update l.gen i (l.gen i + 1) j⟩ : Conn) = l.occupant j := by
    intro j hji
    simp only [update_of_ne hji, occupant]
  obtain ⟨hnumbered, hfree, hconnected⟩ := h.slots (i := i)
    (s := { l.slot i with id := i, fd := none, status := .reserse }) (fun _ => rfl)
    (fun _ => rfl) (fun hs => SocketStatus.noConfusion hs)
  constructor
  · intro j n hj hcloses
    by_cases hji : j = i
    · subst hji
      simp only [update_self] at hj
      cases hj
    · simp only [update_of_ne hji] at hj
      obtain ⟨g, hg, howner⟩ := h.fds j n hj hcloses
      exact ⟨g, hg, howner.trans (hocc j hji).symm⟩
  · exact hnumbered
  · intro n event hevent
    obtain ⟨hslot, hcloses⟩ := h.registered n event hevent
    have hne : event.ud ≠ i := by
      rintro rfl
      rw [hnone] at hslot
      cases hslot
    exact ⟨by simpa only [update_of_ne hne] using hslot, hcloses⟩
  · exact hfree
  · exact hconnected
  · intro c op hc
    obtain ⟨hcocc, hst, hfile⟩ := h.reserved c op hc
    have hne : c.slot ≠ i := by
      intro hci
      rw [hci, hidle] at hst
      cases hst
    exact ⟨(hocc _ hne).trans hcocc, by simpa only [update_of_ne hne] using hst, hfile⟩
  · intro c hc
    obtain ⟨hhash, hcid, hgen⟩ := h.calls c hc
    refine ⟨hhash, ?_, ?_⟩
    · by_cases hci : c.slot = i
      · simp only [hci, update_self]
      · simpa only [update_of_ne hci] using hcid
    · by_cases hci : c.slot = i
      · rw [hci] at hgen ⊢
        simp only [update_self]
        omega
      · simpa only [update_of_ne hci] using hgen
  · intro j hj
    have hji : j ≠ i := fun hji => hfails (hji ▸ hj)
    refine ⟨by simpa only [update_of_ne hji] using (h.failing j hj).1, ?_⟩
    intro op hop
    rw [occupant, hocc j hji] at hop
    exact (h.failing j hj).2 op hop
  · intro j hj
    have huse := inUse_iff.mp (h.closing j hj)
    have hji : j ≠ i := by
      rintro rfl
      exact huse (.inl hidle)
    rw [inUse_iff]
    simpa only [update_of_ne hji] using huse

/-- A call that has not just reserved its slot goes on, or ends. -/
theorem Sound.setCall (h : l.Sound) {c : Conn} {v : Option Call}
    (hv : ∀ op, v ≠ some (.reserved op)) (hc : l.call c ≠ none) :
    Sound { l with call := update l.call c v } := by
  have hold : ∀ d op, update l.call c v d = some (.reserved op) →
      l.call d = some (.reserved op) := by
    intro d op hd
    by_cases hdc : d = c
    · subst hdc
      rw [update_self] at hd
      exact absurd hd (hv op)
    · rwa [update_of_ne hdc] at hd
  refine { h with reserved := ?_, calls := ?_, failing := ?_ }
  · intro d op hd
    exact h.reserved d op (hold d op hd)
  · intro d hd
    apply h.calls d
    by_cases hdc : d = c
    · exact hdc ▸ hc
    · simpa only [update_of_ne hdc] using hd
  · intro j hj
    exact ⟨(h.failing j hj).1, fun op hop => (h.failing j hj).2 op (hold _ op hop)⟩

/-- A caller has its slot. -/
theorem Sound.setReserved (h : l.Sound) {c : Conn} {op : Op} (hocc : l.occupant c.slot = c)
    (hstatus : (l.slot c.slot).status = .reserse) (hhash : l.hash c.slot = c.slot)
    (hid : (l.slot c.slot).id = c.slot)
    (hfile : ∀ fd, op.fd = some fd → l.files fd = some ⟨c, true⟩)
    (hfails : l.pc.fails ≠ some c.slot) :
    Sound { l with call := update l.call c (some (.reserved op)) } := by
  refine { h with reserved := ?_, calls := ?_, failing := ?_ }
  · intro d op' hd
    by_cases hdc : d = c
    · subst hdc
      simp only [update_self, Option.some.injEq, Call.reserved.injEq] at hd
      exact ⟨hocc, hstatus, hd ▸ hfile⟩
    · simp only [update_of_ne hdc] at hd
      exact h.reserved d op' hd
  · intro d hd
    by_cases hdc : d = c
    · subst hdc
      refine ⟨hhash, hid, ?_⟩
      show d.gen ≤ (l.occupant d.slot).gen
      rw [hocc]
    · simp only [update_of_ne hdc] at hd
      exact h.calls d hd
  · intro j hj
    refine ⟨(h.failing j hj).1, ?_⟩
    intro op' hop
    have hne : l.occupant j ≠ c := by
      rintro hjc
      apply hfails
      rw [← hjc]
      exact hj
    have hop : update l.call c (some (.reserved op)) (l.occupant j) = some (.reserved op') := hop
    rw [update_of_ne hne] at hop
    exact (h.failing j hj).2 op' hop

/-- `::close` at the head of `forceClose`. -/
theorem Sound.close (h : l.Sound) (huse : l.inUse i) (hcloses : l.pc.closes = none)
    (closeType : CloseType) (k : Resume) :
    Sound { l.closeFd (l.slot i).fd with pc := .closing i closeType k } := by
  have hclosing : (Pc.closing i closeType k).closes = some i := rfl
  have hused : ∀ j, (Pc.closing i closeType k).closes = some j → l.inUse j := by
    rintro j ⟨⟩
    exact huse
  cases hfd : (l.slot i).fd with
  | none =>
    refine { h with fds := ?_, registered := ?_, failing := by rintro j ⟨⟩, closing := hused }
    · intro j n hj _
      exact h.fds j n hj (by simp [hcloses])
    · intro n event hevent
      refine ⟨(h.registered n event hevent).1, ?_⟩
      show (Pc.closing i closeType k).closes ≠ _
      rw [hclosing]
      intro heq
      have hn := (h.registered n event hevent).1
      rw [← Option.some.inj heq, hfd] at hn
      cases hn
  | some fd =>
    obtain ⟨f, hf, howner⟩ := h.fds i fd hfd (by simp [hcloses])
    refine { h with fds := ?_, registered := ?_, reserved := ?_, failing := by rintro j ⟨⟩,
                    closing := hused }
    · intro j n hj hji
      obtain ⟨g, hg, hgowner⟩ := h.fds j n hj (by simp [hcloses])
      refine ⟨g, ?_, hgowner⟩
      have hne : n ≠ fd := by
        rintro rfl
        rw [hf] at hg
        cases hg
        have hij : i = j := congrArg Conn.slot (howner.symm.trans hgowner)
        exact hji (congrArg some hij)
      simpa only [closeFd, update_of_ne hne] using hg
    · intro n event hevent
      have hne : n ≠ fd := by
        rintro rfl
        simp only [closeFd, SocketPoller.kernelClose, update_self] at hevent
        cases hevent
      simp only [closeFd, SocketPoller.kernelClose, update_of_ne hne] at hevent
      refine ⟨(h.registered n event hevent).1, ?_⟩
      show (Pc.closing i closeType k).closes ≠ _
      rw [hclosing]
      intro heq
      have hn := (h.registered n event hevent).1
      rw [← Option.some.inj heq, hfd] at hn
      exact hne (Option.some.inj hn).symm
    · intro c op hc
      obtain ⟨hocc, hst, hfile⟩ := h.reserved c op hc
      refine ⟨hocc, hst, ?_⟩
      intro n hn
      have hne : n ≠ fd := by
        rintro rfl
        rw [hfile n hn] at hf
        cases hf
        have hci : c.slot = i := congrArg Conn.slot howner
        exact inUse_iff.mp huse (.inr (hci ▸ hst))
      simpa only [closeFd, update_of_ne hne] using hfile n hn

/-- The end of `forceClose`. -/
theorem Sound.clear (h : l.Sound) {closeType : CloseType} {k : Resume}
    (hpc : l.pc = .closing i closeType k) : Sound { l.clear i with pc := .resume k } := by
  have hcloses : l.pc.closes = some i := by rw [hpc]; rfl
  have huse := inUse_iff.mp (h.closing i hcloses)
  have hsome : ∀ j, j ≠ i → l.pc.closes ≠ some j := by
    intro j hji heq
    rw [hcloses] at heq
    exact hji (Option.some.inj heq).symm
  have hepoll : ∀ n event, (l.clear i).poll.epoll n = some event →
      l.poll.epoll n = some event := by
    intro n event hevent
    simp only [SocketLoop.clear] at hevent
    split at hevent
    · exact SocketPoller.epoll_del hevent
    · exact hevent
  obtain ⟨hnumbered, hfree, hconnected⟩ := h.slots (i := i)
    (s := { l.slot i with fd := none, status := .idle, readBuffer := none, writeBuffer := [] })
    (absurd rfl) (fun _ => rfl) (fun hs => SocketStatus.noConfusion hs)
  constructor
  · intro j n hj _
    by_cases hji : j = i
    · subst hji
      simp only [SocketLoop.clear, update_self] at hj
      cases hj
    · simp only [SocketLoop.clear, update_of_ne hji] at hj
      exact h.fds j n hj (hsome j hji)
  · exact hnumbered
  · intro n event hevent
    obtain ⟨hslot, hne⟩ := h.registered n event (hepoll n event hevent)
    have hne : event.ud ≠ i := by
      rintro rfl
      exact hne hcloses
    refine ⟨by simpa only [SocketLoop.clear, update_of_ne hne] using hslot, ?_⟩
    rintro ⟨⟩
  · exact hfree
  · exact hconnected
  · intro c op hc
    obtain ⟨hocc, hst, hfile⟩ := h.reserved c op hc
    have hne : c.slot ≠ i := fun hci => huse (.inr (hci ▸ hst))
    exact ⟨hocc, by simpa only [SocketLoop.clear, update_of_ne hne] using hst, hfile⟩
  · intro c hc
    obtain ⟨hhash, hcid, hgen⟩ := h.calls c hc
    have hkept : ((l.clear i).slot c.slot).id = (l.slot c.slot).id := by
      apply field_update Socket.id
      rfl
    exact ⟨hhash, hkept.trans hcid, hgen⟩
  · rintro j ⟨⟩
  · rintro j ⟨⟩

theorem Sound.reserve (h : l.Sound) {op : Op} (hadmits : l.pc.fails ≠ some i)
    (hidle : (l.slot i).status = .idle) (hhash : l.hash i = i)
    (hfd : ∀ fd, op.fd = some fd → l.files fd = none) : Sound { l with
      slot := update l.slot i { l.slot i with id := i, fd := none, status := .reserse }
      gen := update l.gen i (l.gen i + 1)
      call := update l.call ⟨i, l.gen i + 1⟩ (some (.reserved op))
      files := op.opened ⟨i, l.gen i + 1⟩ l.files } := by
  have htaken := h.take hidle hadmits
  have hocc : (⟨i, update l.gen i (l.gen i + 1) i⟩ : Conn) = ⟨i, l.gen i + 1⟩ := by
    rw [update_self]
  cases op with
  | connect handler =>
    exact htaken.setReserved hocc (by simp only [update_self]) hhash (by simp only [update_self])
      (by rintro fd ⟨⟩) hadmits
  | listen handler fd =>
    have hopened := htaken.openFile (hfd fd rfl) ⟨⟨i, l.gen i + 1⟩, true⟩
    refine hopened.setReserved hocc (by simp only [update_self]) hhash
      (by simp only [update_self]) ?_ hadmits
    rintro _ ⟨⟩
    exact update_self _ _ _

theorem Sound.publish (h : l.Sound) {c : Conn} {op : Op}
    (hc : l.call c = some (.reserved op)) : Sound { l with
      slot := update l.slot c.slot (op.fill (l.slot c.slot))
      call := update l.call c (some (.published op)) } := by
  obtain ⟨hocc, hst, hfile⟩ := h.reserved c op hc
  have hcall : l.call c ≠ none := by simp [hc]
  have hset := h.setCall (v := some (.published op)) (by rintro op' ⟨⟩) hcall
  have hfree : Unreserved { l with call := update l.call c (some (.published op)) } c.slot := by
    intro op' hop
    have hop : update l.call c (some (.published op)) (l.occupant c.slot) =
      some (.reserved op') := hop
    rw [hocc, update_self] at hop
    cases hop
  have hfails : l.pc.fails ≠ some c.slot := by
    intro heq
    refine (h.failing _ heq).2 op ?_
    rw [hocc]
    exact hc
  have hcloses : l.pc.closes ≠ some c.slot := by
    intro heq
    exact inUse_iff.mp (h.closing _ heq) (.inr hst)
  have hnone : (l.slot c.slot).fd = none := h.free _ (.inr hst)
  cases op with
  | connect handler =>
    exact hset.setSlot rfl rfl (fun _ => (h.calls c hcall).2.1) (fun _ => hnone) (by rintro ⟨⟩)
      (.inr ⟨hfree, hcloses⟩)
  | listen handler fd =>
    exact hset.openSlot hnone rfl (h.calls c hcall).2.1 (hfile fd rfl) hocc.symm
      (by rintro (⟨⟨⟩⟩ | ⟨⟨⟩⟩)) hfree hfails

theorem Sound.opened (h : l.Sound) {fd : Nat} (hpc : l.pc.Plain) (hfd : l.files fd = none)
    (hnone : (l.slot i).fd = none) (hfree : l.Unreserved i) (hid : (l.slot i).id = i) :
    Sound { l with
      files := update l.files fd (some ⟨l.occupant i, false⟩)
      slot := update l.slot i { l.slot i with fd := some fd, status := .connecting }
      pc := .resume .command } := by
  have hopened := (h.openFile hfd ⟨l.occupant i, false⟩).openSlot (i := i)
    (s := { l.slot i with fd := some fd, status := .connecting }) hnone rfl hid
    (update_self _ _ _) rfl (by rintro (⟨⟨⟩⟩ | ⟨⟨⟩⟩)) hfree (by simp [hpc.fails])
  exact hopened.move hpc.closes rfl (by rintro j ⟨⟩)

theorem Sound.accepted (h : l.Sound) {fd listener allocId : Nat} {handler : Option Nat}
    (hpc : l.pc.Plain) (hidle : (l.slot i).status = .idle) (hfd : l.files fd = none) :
    Sound { l with
      allocId := allocId
      slot := update l.slot i { l.slot i with
        id := i, fd := some fd, type := .normal, status := .connected, handler := handler }
      gen := update l.gen i (l.gen i + 1)
      files := update l.files fd (some ⟨⟨i, l.gen i + 1⟩, false⟩)
      pc := .onAccept i listener } := by
  have hfails : l.pc.fails ≠ some i := by simp [hpc.fails]
  have htaken := h.take hidle hfails
  have hfree : ∀ op, l.call ⟨i, update l.gen i (l.gen i + 1) i⟩ ≠ some (.reserved op) := by
    intro op hop
    rw [update_self] at hop
    have hgen := (h.calls ⟨i, l.gen i + 1⟩ (by simp [hop])).2.2
    simp only at hgen
    omega
  have hopened := (htaken.openFile hfd ⟨⟨i, l.gen i + 1⟩, false⟩).openSlot (i := i)
    (s := { l.slot i with
      id := i, fd := some fd, type := .normal, status := .connected, handler := handler })
    (by simp only [update_self]) rfl rfl (update_self _ _ _)
    (by simp only [occupant, update_self]) (by rintro (⟨⟨⟩⟩ | ⟨⟨⟩⟩)) hfree hfails
  have hmoved := @Sound.move _ hopened (.onAccept i listener) hpc.closes rfl (by rintro j ⟨⟩)
  simp only [Function.update_idem] at hmoved
  exact { hmoved with }

/-- What `Admits` lets through keeps the loop sound. -/
theorem Sound.change {l' : SocketLoop} (hadmits : l₀.Admits a) (h : l.Sound)
    (hchange : Change l₀ a l l') : l'.Sound := by
  cases hchange with
  | misc => exact { h with }
  | reserve op i allocId hpicks ha hidle hhash hfd =>
    exact { h.reserve (hadmits.reserve i hpicks) hidle hhash hfd with }
  | publish _ c op hc ha => exact h.publish hc
  | push _ c op hc ha => exact { h.setCall (v := none) (by rintro op' ⟨⟩) (by simp [hc]) with }
  | issue cmd ha hnames => exact { h with }
  | reported _ events hevents => exact { h with }
  | eventDone _ rest hrest => exact { h with }
  | deliver _ effect targets i htargets => exact { h with }
  | goto _ pc hfrom hto hruns hk => exact h.move hfrom.closes hto.closes (by simp [hto.fails])
  | pop _ cmd rest hqueue hpc =>
    have hmoved := @Sound.move _ h (.running cmd) (by rw [hpc]; rfl) rfl (by rintro j ⟨⟩)
    exact { hmoved with }
  | buffers _ i r w =>
    exact h.setSlot rfl rfl (h.numbered i) (h.free i) (h.connected i) (.inl rfl)
  | rearm _ i fd poll hfd hcloses hpoll =>
    refine { h with registered := ?_ }
    intro n event hevent
    rcases hpoll.epoll n event hevent with ⟨rfl, hud⟩ | hold
    · rw [hud]
      exact ⟨hfd, by simp [hcloses]⟩
    · exact h.registered n event hold
  | queued _ i targets hstatus htargets => exact { h with }
  | close _ i closeType k huse hpc hk => exact h.close huse hpc.closes closeType k
  | clear i closeType k hpc => exact h.clear hpc
  | connectFailed i hconnects =>
    obtain ⟨hnone, hid, hfree⟩ := hadmits.connect i hconnects
    obtain ⟨id, target, hpc, -⟩ := connects_eq_some hconnects
    refine h.move (by rw [hpc]; rfl) rfl ?_
    rintro j ⟨⟩
    exact ⟨hnone, hfree⟩
  | idled i hpc =>
    obtain ⟨hnone, hfree⟩ := h.failing i (by rw [hpc]; rfl)
    have hcloses : l.pc.closes = none := by rw [hpc]; rfl
    have hset := h.setSlot (s := { l.slot i with status := .idle }) rfl rfl (absurd rfl)
      (fun _ => hnone) (by rintro ⟨⟩) (.inr ⟨hfree, by simp [hcloses]⟩)
    exact hset.move hcloses rfl (by rintro j ⟨⟩)
  | opened i fd hconnects hfd =>
    obtain ⟨hnone, hid, hfree⟩ := hadmits.connect i hconnects
    obtain ⟨id, target, hpc, -⟩ := connects_eq_some hconnects
    exact h.opened (by rw [hpc]; exact ⟨rfl, rfl, rfl⟩) hfd hnone hfree hid
  | connected _ i fd k hpc hstatus hfd hk =>
    have hfree : l.Unreserved i := by
      intro op hop
      have hst := (h.reserved _ op hop).2.1
      rw [occupant, hstatus] at hst
      cases hst
    have hset := h.setSlot (s := { l.slot i with status := .connected }) rfl rfl
      (fun _ => h.numbered i (by simp [hstatus])) (by rintro (⟨⟨⟩⟩ | ⟨⟨⟩⟩))
      (fun _ => by simp [hfd]) (.inr ⟨hfree, by simp [hpc.closes]⟩)
    exact hset.move hpc.closes rfl (by rintro j ⟨⟩)
  | returned _ i k hpc₀ hpc => exact h.move (by rw [hpc]; rfl) rfl (by rintro j ⟨⟩)
  | accepted i j fd s allocId f hpicks hpc hidle hhash hfd hs hf hlistening =>
    exact h.accepted (by rw [hpc]; exact ⟨rfl, rfl, rfl⟩) hidle hfd

/-- A step that is let through keeps the loop sound. -/
theorem Sound.step {l' : SocketLoop} (h : l.Sound) (hadmits : l.Admits a)
    (hstep : l.step a = some l') : l'.Sound :=
  invariant_step h.ids (fun _ _ hx hchange => hx.change hadmits hchange) hstep h

end Sound

/-! ## What the poller knows -/

/-- The poller keeps a mask only for the fd of a slot. -/
def Masked (l : SocketLoop) : Prop :=
  ∀ fd, l.poll.fdEvent fd ≠ .none → ∃ i, (l.slot i).fd = some fd

section Masked

variable {l l₀ : SocketLoop} {a : Action} {i : Nat}

theorem masked_new (maxSocket efd : Nat) : (new maxSocket efd).Masked := by
  intro fd hmask
  exact absurd rfl hmask

/-- No slot loses an fd. -/
theorem Masked.setSlot (h : l.Masked) {s : Socket}
    (hfd : s.fd = (l.slot i).fd ∨ (l.slot i).fd = none) :
    Masked { l with slot := update l.slot i s } := by
  intro fd hmask
  obtain ⟨j, hj⟩ := h fd hmask
  refine ⟨j, ?_⟩
  by_cases hji : j = i
  · rw [hji] at hj
    simp only [hji, update_self]
    rcases hfd with hfd | hnone
    · rw [hfd, hj]
    · rw [hnone] at hj
      cases hj
  · simpa only [update_of_ne hji] using hj

/-- `forceClose` takes the fd from the slot and the mask from the poller. -/
theorem Masked.clear (h : l.Masked) (i : Nat) : (l.clear i).Masked := by
  intro fd hmask
  have hold : l.poll.fdEvent fd ≠ .none ∧ (l.slot i).fd ≠ some fd := by
    cases hfd : (l.slot i).fd with
    | none =>
      simp only [SocketLoop.clear, hfd] at hmask
      exact ⟨hmask, by simp⟩
    | some n =>
      simp only [SocketLoop.clear, hfd, SocketPoller.fdEvent_del] at hmask
      split at hmask
      · exact absurd rfl hmask
      · rename_i hne
        refine ⟨hmask, ?_⟩
        rintro ⟨⟩
        exact hne rfl
  obtain ⟨j, hj⟩ := h fd hold.1
  refine ⟨j, ?_⟩
  have hji : j ≠ i := by
    rintro rfl
    exact hold.2 hj
  simpa only [SocketLoop.clear, update_of_ne hji] using hj

theorem Masked.change {l' : SocketLoop} (hadmits : l₀.Admits a) (hsound : l.Sound)
    (h : l.Masked) (hchange : Change l₀ a l l') : l'.Masked := by
  cases hchange with
  | misc | push | issue | reported | eventDone | deliver | goto | pop | queued | connectFailed
  | returned => exact h
  | reserve op i allocId hpicks ha hidle hhash hfd =>
    exact h.setSlot (.inr (hsound.free i (.inl hidle)))
  | publish _ c op hc ha =>
    exact h.setSlot (.inr (hsound.free _ (.inr (hsound.reserved c op hc).2.1)))
  | buffers _ i r w => exact h.setSlot (.inl rfl)
  | rearm _ i fd poll hfd hcloses hpoll =>
    intro n hmask
    by_cases hn : n = fd
    · exact ⟨i, hn ▸ hfd⟩
    · exact h n (hpoll.masks n hn ▸ hmask)
  | close _ i closeType k huse hpc hk =>
    cases hfd : (l.slot i).fd with
    | none => exact h
    | some fd => exact h
  | clear i closeType k hpc => exact h.clear i
  | idled i hpc => exact h.setSlot (.inl rfl)
  | opened i fd hconnects hfd => exact h.setSlot (.inr (hadmits.connect i hconnects).1)
  | connected _ i fd k hpc hstatus hfd hk => exact h.setSlot (.inl rfl)
  | accepted i j fd s allocId f hpicks hpc hidle hhash hfd hs hf hlistening =>
    exact h.setSlot (.inr (hsound.free j (.inl hidle)))

theorem Masked.step {l' : SocketLoop} (h : l.Masked) (hsound : l.Sound)
    (hadmits : l.Admits a) (hstep : l.step a = some l') : l'.Sound ∧ l'.Masked := by
  refine invariant_step (I := fun x => x.Sound ∧ x.Masked) hsound.ids ?_ hstep ⟨hsound, h⟩
  intro x y hx hchange
  exact ⟨hx.1.change hadmits hchange, hx.2.change hadmits hx.1 hchange⟩

/-- An fd that is not open is known to nobody, except while it is being closed. -/
theorem Sound.unknown (h : l.Sound) (hmasked : l.Masked) {fd : Nat} (hfile : l.files fd = none)
    (hcloses : l.pc.closes = none) : l.poll.Unknown fd := by
  have hslot : ∀ i, (l.slot i).fd ≠ some fd := by
    intro i hfd
    obtain ⟨f, hf, -⟩ := h.fds i fd hfd (by simp [hcloses])
    rw [hfile] at hf
    cases hf
  constructor
  · cases hevent : l.poll.epoll fd with
    | none => rfl
    | some event => exact absurd (h.registered fd event hevent).1 (hslot event.ud)
  · by_contra hmask
    obtain ⟨i, hi⟩ := hmasked fd hmask
    exact hslot i hi

/-- A run that pulls no slot away opens every connection with an fd the poller does not
know: the send path starts as `SendSide.connected` says. -/
theorem new_fd_unknown (maxSocket efd : Nat)
    (h : Runs step Admits (new maxSocket efd) l) {fd : Nat} (hfile : l.files fd = none)
    (hcloses : l.pc.closes = none) : l.poll.Unknown fd := by
  have hboth : l.Sound ∧ l.Masked := by
    refine h.invariant (I := fun x => x.Sound ∧ x.Masked) ?_
      ⟨sound_new maxSocket efd, masked_new maxSocket efd⟩
    intro x a y hx hadmits hstep
    exact hx.2.step hx.1 hadmits hstep
  exact hboth.1.unknown hboth.2 hfile hcloses

end Masked

end SocketLoop

end StormNet.Net
