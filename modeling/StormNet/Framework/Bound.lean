/-
  Framework/Bound.lean --- what ties a `ProxyEndPoint` to the slots of its loop.

  The endpoint claims exactly the slots that are Connecting or Connected on its behalf,
  but for one that its `onClose` has just given up.  Every change of the loop and every
  critical section of the endpoint keeps this, as long as `connectSocket` only runs for a
  slot that still waits for it.
-/
import StormNet.Framework.ProxyEndPoint

set_option autoImplicit false

namespace StormNet.Framework

open StormNet.Foundation StormNet.Net
open StormNet.Net.SocketLoop (Change Env)
open Function (update update_self update_of_ne)

/-- The endpoint has the slot, or its call of `connect` brings it. -/
def ProxyEndPoint.Claims (ep : ProxyEndPoint) (i : Nat) : Prop :=
  ep.connId = some i ∨
  ∃ c, c.slot = i ∧ (ep.sending = .published c ∨ ep.sending = .returned c)

namespace Client

/-- The slot is Connecting or Connected on behalf of the handler. -/
def Mine (handler : Nat) (l : SocketLoop) (i : Nat) : Prop :=
  (l.slot i).handler = some handler ∧
    ((l.slot i).status = .connecting ∨ (l.slot i).status = .connected)

/-- `onClose` runs for the slot. -/
def Ends (l : SocketLoop) (i : Nat) : Prop := l.pc.closes = some i ∨ l.pc.fails = some i

/-- The endpoint `ep` and the loop `l`; `ran` says that the critical section of the
callback at hand is over. -/
structure Bound (handler : Nat) (l : SocketLoop) (ep : ProxyEndPoint) (ran : Bool) : Prop where
  /-- the endpoint claims the slots of its own, but for the one it has just given up -/
  claims : ∀ i, ep.Claims i ↔ Mine handler l i ∧ ¬ (ran = true ∧ Ends l i)
  up : ep.connected = true → ∃ i, ep.connId = some i ∧ (l.slot i).status = .connected
  down : ∀ i, ep.Claims i → (l.slot i).status = .connected →
    ep.connected = true ∨ l.pc.connects = some i ∧ ran = false
  busy : ep.sending ≠ .free → ep.connId = none
  reserved : ∀ c, ep.sending = .reserved c → l.call c = some (.reserved (.connect handler))
  /-- nobody else brings the handler -/
  callers : ∀ c op, l.call c = some (.reserved op) → opHandler op = handler →
    ep.sending = .reserved c
  /-- the endpoint does not listen -/
  listening : ∀ i fd f, (l.slot i).fd = some fd → l.pc.closes ≠ some i →
    l.files fd = some f → f.listening = true → (l.slot i).handler ≠ some handler
  connects : ∀ i, l.pc.connects = some i → (l.slot i).status = .connected
  fails : ∀ i, l.pc.fails = some i → (l.slot i).status = .connecting
  hooked : ran = true → InCallback handler l

section Bound

variable {handler : Nat} {l l₀ : SocketLoop} {ep : ProxyEndPoint} {ran : Bool} {i : Nat}

theorem Mine.status_ne {status : SocketStatus} (h : Mine handler l i)
    (hne : status ≠ .connecting ∧ status ≠ .connected) : (l.slot i).status ≠ status := by
  rintro rfl
  rcases h.2 with h | h
  · exact hne.1 h
  · exact hne.2 h

theorem bound_new (maxSocket efd : Nat) :
    Bound handler (new maxSocket efd).loop (new maxSocket efd).endPoint
      (new maxSocket efd).ran := by
  have hslot : ∀ i, ((new maxSocket efd).loop.slot i).handler = none := by
    intro i
    by_cases hi : i = 0
    · simp [new, SocketLoop.new, hi]
    · simp [new, SocketLoop.new, update_of_ne hi]
  constructor
  · intro i
    constructor
    · rintro (⟨⟨⟩⟩ | ⟨c, -, ⟨⟨⟩⟩ | ⟨⟨⟩⟩⟩)
    · rintro ⟨⟨hhandler, -⟩, -⟩
      rw [hslot] at hhandler
      cases hhandler
  · rintro ⟨⟩
  · rintro i (⟨⟨⟩⟩ | ⟨c, -, ⟨⟨⟩⟩ | ⟨⟨⟩⟩⟩)
  · intro hne
    exact absurd rfl hne
  · rintro c ⟨⟩
  · rintro c op ⟨⟩
  · intro i fd f _ _ _ _
    rw [hslot]
    rintro ⟨⟩
  · rintro i ⟨⟩
  · rintro i ⟨⟩
  · rintro ⟨⟩

/-- Between two calls of `send` the endpoint claims the slot of `m_connId` only. -/
theorem claims_of_free (hfree : ep.sending = .free) : ep.Claims i ↔ ep.connId = some i := by
  simp [ProxyEndPoint.Claims, hfree]

theorem Ends.eq {j : Nat} (hi : Ends l i) (hj : Ends l j) : j = i := by
  rcases hi with hi | hi <;> rcases hj with hj | hj <;> cases hp : l.pc <;>
    rw [hp] at hi hj <;> cases hi <;> cases hj <;> rfl

theorem Ends.connects (h : Ends l i) : l.pc.connects = none := by
  rcases h with hi | hi <;> cases hp : l.pc <;> rw [hp] at hi <;> cases hi <;> rfl

theorem not_ends_of_onConnect {k : Resume} (hpc : l.pc = .onConnect i k) (j : Nat) :
    ¬ Ends l j := by
  intro hends
  have hnone := hends.connects
  rw [hpc] at hnone
  cases hnone

/-- Outside `onConnect` the endpoint knows of every connection it has. -/
theorem Bound.connected_of_claims (h : Bound handler l ep ran) (hpc : l.pc.connects = none)
    (hi : ep.Claims i) (hstatus : (l.slot i).status = .connected) : ep.connected = true := by
  refine (h.down i hi hstatus).resolve_right ?_
  intro hlate
  have hconnects := hlate.1
  rw [hpc] at hconnects
  cases hconnects

/-- A reservation of the endpoint's is one of its handler's. -/
theorem Bound.sending_ne (h : Bound handler l ep ran) {c : Conn}
    (hc : l.call c ≠ some (.reserved (.connect handler))) : ep.sending ≠ .reserved c :=
  fun hsending => hc (h.reserved c hsending)

theorem hooks_of_connects {pc : Pc} (h : pc.connects = some i) : hooks pc = some i := by
  cases pc with
  | onConnect => exact h
  | _ => cases h

theorem hooks_of_fails {pc : Pc} (h : pc.fails = some i) : hooks pc = some i := by
  cases pc with
  | failing => exact h
  | _ => cases h

theorem Bound.ran_eq_false (h : Bound handler l ep ran) (hpc : hooks l.pc = none) :
    ran = false := by
  cases hran : ran with
  | false => rfl
  | true =>
    obtain ⟨i, hi, -⟩ := h.hooked hran
    rw [hpc] at hi
    cases hi

/-- The loop's thread moves on from a place where no callback of the kind runs. -/
theorem Bound.move (h : Bound handler l ep false) (hpc : l.pc.Plain) {pc : Pc}
    (hconnects : ∀ i, pc.connects = some i → (l.slot i).status = .connected)
    (hfails : ∀ i, pc.fails = some i → (l.slot i).status = .connecting) :
    Bound handler { l with pc := pc } ep false := by
  refine { h with claims := ?_, down := ?_, listening := ?_, connects := hconnects,
                  fails := hfails, hooked := by rintro ⟨⟩ }
  · intro i
    rw [h.claims i]
    simp [Mine]
  · intro i hi hstatus
    exact .inl (h.connected_of_claims hpc.connects hi hstatus)
  · intro i fd f hfd _ hf hlistening
    exact h.listening i fd f hfd (by simp [hpc.closes]) hf hlistening

/-- A change of buffers: what the endpoint sees of the slots stays. -/
theorem Bound.setSlot (h : Bound handler l ep ran) {s : Socket}
    (hhandler : s.handler = (l.slot i).handler) (hstatus : s.status = (l.slot i).status)
    (hfd : s.fd = (l.slot i).fd) :
    Bound handler { l with slot := update l.slot i s } ep ran := by
  have hall : ∀ j, (update l.slot i s j).handler = (l.slot j).handler ∧
      (update l.slot i s j).status = (l.slot j).status ∧
      (update l.slot i s j).fd = (l.slot j).fd :=
    fun j => ⟨SocketLoop.field_update Socket.handler hhandler j,
      SocketLoop.field_update Socket.status hstatus j, SocketLoop.field_update Socket.fd hfd j⟩
  constructor
  · intro j
    rw [h.claims j, Mine, Mine, (hall j).1, (hall j).2.1]
    rfl
  · intro hup
    obtain ⟨j, hj, hst⟩ := h.up hup
    exact ⟨j, hj, (hall j).2.1.trans hst⟩
  · intro j hj hst
    exact h.down j hj ((hall j).2.1.symm.trans hst)
  · exact h.busy
  · exact h.reserved
  · exact h.callers
  · intro j fd f hj hcloses hf hlistening
    show (update l.slot i s j).handler ≠ _
    rw [(hall j).1]
    exact h.listening j fd f ((hall j).2.2.symm.trans hj) hcloses hf hlistening
  · intro j hj
    exact (hall j).2.1.trans (h.connects j hj)
  · intro j hj
    exact (hall j).2.1.trans (h.fails j hj)
  · intro hran
    obtain ⟨j, hj, hhook⟩ := h.hooked hran
    exact ⟨j, hj, (hall j).1.trans hhook⟩

/-- A slot that a callback runs for is in use. -/
theorem Bound.hooks_inUse (h : Bound handler l ep ran) (hsound : l.Sound)
    (hi : hooks l.pc = some i) :
    ¬ ((l.slot i).status = .idle ∨ (l.slot i).status = .reserse) := by
  cases hpc : l.pc with
  | onConnect j k =>
    rw [hpc] at hi
    cases hi
    rw [h.connects i (by rw [hpc]; rfl)]
    rintro (⟨⟨⟩⟩ | ⟨⟨⟩⟩)
  | closing j closeType k =>
    rw [hpc] at hi
    cases hi
    exact SocketLoop.inUse_iff.mp (hsound.closing i (by rw [hpc]; rfl))
  | failing j =>
    rw [hpc] at hi
    cases hi
    rw [h.fails i (by rw [hpc]; rfl)]
    rintro (⟨⟨⟩⟩ | ⟨⟨⟩⟩)
  | _ =>
    rw [hpc] at hi
    cases hi

section Unused

/-! A slot that is not in use has no callback, and can be assigned while one runs. -/

variable (h : Bound handler l ep ran) (hsound : l.Sound)
  (hfree : (l.slot i).status = .idle ∨ (l.slot i).status = .reserse)

include h hsound hfree

theorem Bound.not_hooked {j : Nat} (hj : hooks l.pc = some j) : j ≠ i := by
  rintro rfl
  exact h.hooks_inUse hsound hj hfree

theorem Bound.connects_update (s : Socket) {j : Nat} (hj : l.pc.connects = some j) :
    (update l.slot i s j).status = .connected := by
  rw [update_of_ne (h.not_hooked hsound hfree (hooks_of_connects hj))]
  exact h.connects j hj

theorem Bound.fails_update (s : Socket) {j : Nat} (hj : l.pc.fails = some j) :
    (update l.slot i s j).status = .connecting := by
  rw [update_of_ne (h.not_hooked hsound hfree (hooks_of_fails hj))]
  exact h.fails j hj

theorem Bound.hooked_update (s : Socket) (hran : ran = true) :
    InCallback handler { l with slot := update l.slot i s } := by
  obtain ⟨j, hj, hhandler⟩ := h.hooked hran
  have hji := h.not_hooked hsound hfree hj
  exact ⟨j, hj, by simpa only [update_of_ne hji] using hhandler⟩

end Unused

/-- The slot `i`, which is not the endpoint's, is assigned and does not become its. -/
theorem Bound.setOther (h : Bound handler l ep ran) (hsound : l.Sound) {s : Socket}
    {gen : Nat → Nat} {files : Nat → Option File}
    (hfree : (l.slot i).status = .idle ∨ (l.slot i).status = .reserse)
    (hs : s.handler = some handler → s.status ≠ .connecting ∧ s.status ≠ .connected)
    (hfiles : ∀ fd f, l.files fd = some f → files fd = some f)
    (hlisten : ∀ fd f, s.fd = some fd → files fd = some f → f.listening = true →
      s.handler ≠ some handler) :
    Bound handler { l with slot := update l.slot i s, gen := gen, files := files } ep ran := by
  have hother : ∀ j, Mine handler l j → j ≠ i := by
    rintro j hj rfl
    rcases hfree with hfree | hfree
    · exact hj.status_ne (by decide) hfree
    · exact hj.status_ne (by decide) hfree
  have hmine : ∀ j,
      Mine handler { l with slot := update l.slot i s, gen := gen, files := files } j ↔
        Mine handler l j := by
    intro j
    by_cases hji : j = i
    · subst hji
      refine iff_of_false ?_ (fun hj => hother j hj rfl)
      rintro ⟨hhandler, hstatus⟩
      simp only [update_self] at hhandler hstatus
      rcases hstatus with hstatus | hstatus
      · exact (hs hhandler).1 hstatus
      · exact (hs hhandler).2 hstatus
    · simp only [Mine, update_of_ne hji]
  have hclaimed : ∀ j, ep.Claims j → j ≠ i := fun j hj => hother j ((h.claims j).mp hj).1
  refine { h with claims := ?_, up := ?_, down := ?_, listening := ?_,
                  connects := fun j => h.connects_update hsound hfree s,
                  fails := fun j => h.fails_update hsound hfree s,
                  hooked := h.hooked_update hsound hfree s }
  · intro j
    rw [h.claims j, hmine j]
    rfl
  · intro hup
    obtain ⟨j, hj, hst⟩ := h.up hup
    have hji := hclaimed j (.inl hj)
    exact ⟨j, hj, by simpa only [update_of_ne hji] using hst⟩
  · intro j hj hst
    simp only [update_of_ne (hclaimed j hj)] at hst
    exact h.down j hj hst
  · intro j fd f hj hcloses hf hlistening
    by_cases hji : j = i
    · subst hji
      simp only [update_self] at hj ⊢
      exact hlisten fd f hj hf hlistening
    · simp only [update_of_ne hji] at hj ⊢
      obtain ⟨g, hg, -⟩ := hsound.fds j fd hj hcloses
      have hgf : g = f := Option.some.inj ((hfiles fd g hg).symm.trans hf)
      exact h.listening j fd f hj hcloses (hgf ▸ hg) hlistening

/-- `send` goes on: the claims stay, and no reservation of the endpoint's comes or goes. -/
theorem Bound.setEndPoint (h : Bound handler l ep ran) {ep' : ProxyEndPoint}
    (hclaims : ∀ i, ep'.Claims i ↔ ep.Claims i) (hconnected : ep'.connected = ep.connected)
    (hup : ep.connected = true → ep'.connId = ep.connId)
    (hbusy : ep'.sending ≠ .free → ep'.connId = none)
    (hold : ∀ c, ep.sending ≠ .reserved c) (hnew : ∀ c, ep'.sending ≠ .reserved c) :
    Bound handler l ep' ran := by
  refine { h with claims := ?_, up := ?_, down := ?_, busy := hbusy, reserved := ?_,
                  callers := ?_ }
  · intro i
    rw [hclaims i]
    exact h.claims i
  · intro hconn
    rw [hconnected] at hconn
    rw [hup hconn]
    exact h.up hconn
  · intro i hi hst
    rw [hconnected]
    exact h.down i ((hclaims i).mp hi) hst
  · intro c hc
    exact absurd hc (hnew c)
  · intro c op hc hop
    exact absurd (h.callers c op hc hop) (hold c)

/-- A call of another user goes on. -/
theorem Bound.setCall (h : Bound handler l ep ran) {c : Conn} {v : Option Call}
    (hv : ∀ op, v = some (.reserved op) → opHandler op ≠ handler)
    (hc : ep.sending ≠ .reserved c) :
    Bound handler { l with call := update l.call c v } ep ran := by
  refine { h with reserved := ?_, callers := ?_ }
  · intro d hd
    have hdc : d ≠ c := by
      rintro rfl
      exact hc hd
    show update l.call c v d = _
    rw [update_of_ne hdc]
    exact h.reserved d hd
  · intro d op hd hop
    have hd : update l.call c v d = some (.reserved op) := hd
    by_cases hdc : d = c
    · subst hdc
      rw [update_self] at hd
      exact absurd hop (hv op hd)
    · rw [update_of_ne hdc] at hd
      exact h.callers d op hd hop

/-- The endpoint's call of `connect` has its slot. -/
theorem Bound.ownReserve (h : Bound handler l ep ran) (hsending : ep.sending = .connecting)
    (c : Conn) : Bound handler
      { l with call := update l.call c (some (.reserved (.connect handler))) }
      { ep with sending := .reserved c } ran := by
  have hconn : ep.connId = none := h.busy (by rw [hsending]; rintro ⟨⟩)
  have hclaims : ∀ i, ProxyEndPoint.Claims { ep with sending := .reserved c } i ↔ ep.Claims i := by
    intro i
    simp [ProxyEndPoint.Claims, hsending]
  refine { h with claims := ?_, down := ?_, busy := fun _ => hconn, reserved := ?_, callers := ?_ }
  · intro i
    rw [hclaims i, h.claims i]
    rfl
  · intro i hi hstatus
    exact h.down i ((hclaims i).mp hi) hstatus
  · rintro d ⟨⟩
    exact update_self _ _ _
  · intro d op hd hop
    have hd : update l.call c (some (.reserved (.connect handler))) d = some (.reserved op) := hd
    by_cases hdc : d = c
    · rw [hdc]
    · rw [update_of_ne hdc] at hd
      have hsend := h.callers d op hd hop
      rw [hsending] at hsend
      cases hsend

/-- An endpoint whose call has a slot reserved claims none yet. -/
theorem Bound.not_claims (h : Bound handler l ep ran) {c : Conn}
    (hsending : ep.sending = .reserved c) (i : Nat) : ¬ ep.Claims i := by
  have hconn : ep.connId = none := h.busy (by rw [hsending]; rintro ⟨⟩)
  rintro (hi | ⟨d, -, hd | hd⟩)
  · rw [hconn] at hi
    cases hi
  · rw [hsending] at hd
    cases hd
  · rw [hsending] at hd
    cases hd

/-- A reserved slot is not about to end. -/
theorem Bound.not_ends (h : Bound handler l ep ran) (hsound : l.Sound)
    (hstatus : (l.slot i).status = .reserse) : ¬ Ends l i := by
  rintro (hj | hj)
  · exact SocketLoop.inUse_iff.mp (hsound.closing _ hj) (.inr hstatus)
  · exact h.not_hooked hsound (.inr hstatus) (hooks_of_fails hj) rfl

/-- The endpoint's call assigns to its slot, which becomes its own. -/
theorem Bound.publish_own (h : Bound handler l ep ran) (hsound : l.Sound) {c : Conn}
    (hc : l.call c = some (.reserved (.connect handler))) (hsending : ep.sending = .reserved c) :
    Bound handler { l with
      slot := update l.slot c.slot ((Op.connect handler).fill (l.slot c.slot))
      call := update l.call c (some (.published (.connect handler))) }
      { ep with sending := .published c } ran := by
  obtain ⟨hocc, hstatus, -⟩ := hsound.reserved c _ hc
  have hconn : ep.connId = none := h.busy (by rw [hsending]; rintro ⟨⟩)
  have hno := h.not_claims hsending
  have hends := h.not_ends hsound hstatus
  have hclaims : ∀ i, ProxyEndPoint.Claims { ep with sending := .published c } i ↔
      i = c.slot := by
    intro i
    constructor
    · rintro (hi | ⟨d, rfl, ⟨⟨⟩⟩ | ⟨⟨⟩⟩⟩)
      · exact absurd hi (by simp [hconn])
      · rfl
    · rintro rfl
      exact .inr ⟨c, rfl, .inl rfl⟩
  constructor
  · intro j
    rw [hclaims j]
    by_cases hji : j = c.slot
    · subst hji
      refine iff_of_true rfl ⟨?_, fun hend => hends hend.2⟩
      simp [Mine, Op.fill]
    · apply iff_of_false hji
      rintro ⟨hmine, hran⟩
      simp only [Mine, update_of_ne hji] at hmine
      exact hno j ((h.claims j).mpr ⟨hmine, hran⟩)
  · intro hup
    obtain ⟨j, hj, -⟩ := h.up hup
    rw [hconn] at hj
    cases hj
  · intro j hj hst
    rw [(hclaims j).mp hj] at hst
    simp only [update_self, Op.fill] at hst
    cases hst
  · exact fun _ => hconn
  · rintro d ⟨⟩
  · intro d op hd hop
    have hd : update l.call c _ d = some (.reserved op) := hd
    have hdc : d ≠ c := by
      rintro rfl
      rw [update_self] at hd
      cases hd
    rw [update_of_ne hdc] at hd
    have hsend := h.callers d op hd hop
    rw [hsending] at hsend
    exact absurd (Sending.reserved.inj hsend).symm hdc
  · intro j fd f hj hcloses hf hlistening
    by_cases hji : j = c.slot
    · subst hji
      simp only [update_self, Op.fill] at hj
      rw [hsound.free _ (.inr hstatus)] at hj
      cases hj
    · simp only [update_of_ne hji] at hj ⊢
      exact h.listening j fd f hj hcloses hf hlistening
  · intro j hj
    exact h.connects_update hsound (.inr hstatus) _ hj
  · intro j hj
    exact h.fails_update hsound (.inr hstatus) _ hj
  · exact h.hooked_update hsound (.inr hstatus) _

/-- The assignments of a caller to its slot; the caller may be the endpoint. -/
theorem Bound.publish (h : Bound handler l ep ran) (hsound : l.Sound) {c : Conn} {op : Op}
    (hc : l.call c = some (.reserved op)) : Bound handler { l with
      slot := update l.slot c.slot (op.fill (l.slot c.slot))
      call := update l.call c (some (.published op)) }
      { ep with sending := Sending.publish ep.sending c } ran := by
  obtain ⟨-, hstatus, -⟩ := hsound.reserved c op hc
  by_cases hop : opHandler op = handler
  · have hsending := h.callers c op hc hop
    have hcop := h.reserved c hsending
    rw [hc] at hcop
    cases hcop
    rw [Sending.publish, if_pos hsending]
    exact h.publish_own hsound hc hsending
  · have hsending : ep.sending ≠ .reserved c := by
      apply h.sending_ne
      rw [hc]
      intro hown
      cases hown
      exact hop rfl
    have hhandler : (op.fill (l.slot c.slot)).handler ≠ some handler := by
      cases op with
      | connect handler' => exact fun heq => hop (Option.some.inj heq)
      | listen handler' fd => exact fun heq => hop (Option.some.inj heq)
    have hset : Bound handler
        { l with slot := update l.slot c.slot (op.fill (l.slot c.slot)) } ep ran :=
      h.setOther hsound (.inr hstatus) (fun heq => absurd heq hhandler) (fun _ _ hf => hf)
        (fun _ _ _ _ _ => hhandler)
    rw [Sending.publish, if_neg hsending]
    exact hset.setCall (by rintro op' ⟨⟩) hsending

/-- The end of a call; it may be the endpoint's. -/
theorem Bound.push (h : Bound handler l ep ran) {c : Conn} {op : Op}
    (hc : l.call c = some (.published op)) :
    Bound handler { l with call := update l.call c none }
      { ep with sending := Sending.push ep.sending c } ran := by
  have hsending : ep.sending ≠ .reserved c := h.sending_ne (by simp [hc])
  have hset := h.setCall (v := none) (by rintro op' ⟨⟩) hsending
  by_cases hown : ep.sending = .published c
  · rw [Sending.push, if_pos hown]
    refine hset.setEndPoint ?_ rfl (fun _ => rfl) (fun _ => h.busy (by rw [hown]; rintro ⟨⟩))
      (by rw [hown]; rintro d ⟨⟩) (by rintro d ⟨⟩)
    intro i
    simp [ProxyEndPoint.Claims, hown]
  · rw [Sending.push, if_neg hown]
    exact hset

/-- `forceClose` starts: the endpoint still claims the slot if it is its own. -/
theorem Bound.close (h : Bound handler l ep false) (hpc : l.pc.Plain) (closeType : CloseType)
    (k : Resume) : Bound handler
      { l.closeFd (l.slot i).fd with pc := .closing i closeType k } ep false := by
  have hmoved := @Bound.move _ _ _ h hpc (.closing i closeType k) (by rintro j ⟨⟩)
    (by rintro j ⟨⟩)
  cases (l.slot i).fd with
  | none => exact hmoved
  | some n =>
    refine { hmoved with listening := ?_ }
    intro j fd f hj _ hf hlistening
    have hf : update l.files n none fd = some f := hf
    have hne : fd ≠ n := by
      rintro rfl
      rw [update_self] at hf
      cases hf
    rw [update_of_ne hne] at hf
    exact h.listening j fd f hj (by simp [hpc.closes]) hf hlistening

/-- A connection is established: the endpoint learns of it in the callback. -/
theorem Bound.connected (h : Bound handler l ep false) (hpc : l.pc.Plain) (k : Resume)
    (hstatus : (l.slot i).status = .connecting) : Bound handler { l with
      slot := update l.slot i { l.slot i with status := .connected }
      pc := .onConnect i k } ep false := by
  have hmine : ∀ j, Mine handler { l with
      slot := update l.slot i { l.slot i with status := .connected }
      pc := .onConnect i k } j ↔ Mine handler l j := by
    intro j
    by_cases hji : j = i
    · subst hji
      simp [Mine, hstatus]
    · simp only [Mine, update_of_ne hji]
  refine { h with claims := ?_, up := ?_, down := ?_, listening := ?_, connects := ?_,
                  fails := by rintro j ⟨⟩, hooked := by rintro ⟨⟩ }
  · intro j
    rw [h.claims j, hmine j]
    simp
  · intro hup
    obtain ⟨j, hj, hst⟩ := h.up hup
    refine ⟨j, hj, ?_⟩
    by_cases hji : j = i
    · subst hji
      simp only [update_self]
    · simpa only [update_of_ne hji] using hst
  · intro j hj hst
    by_cases hji : j = i
    · exact .inr ⟨congrArg some hji.symm, rfl⟩
    · simp only [update_of_ne hji] at hst
      exact .inl (h.connected_of_claims hpc.connects hj hst)
  · intro j fd f hj _ hf hlistening
    have hfd : (update l.slot i { l.slot i with status := .connected } j).fd = (l.slot j).fd :=
      SocketLoop.field_update Socket.fd (by rfl) j
    have hhandler : (update l.slot i { l.slot i with status := .connected } j).handler =
        (l.slot j).handler := SocketLoop.field_update Socket.handler (by rfl) j
    exact hhandler ▸ h.listening j fd f (hfd ▸ hj) (by simp [hpc.closes]) hf hlistening
  · rintro j ⟨⟩
    simp only [update_self]

/-- A slot that waits for `connectSocket` gets its fd. -/
theorem Bound.opened (h : Bound handler l ep false) (hsound : l.Sound) (hpc : l.pc.Plain)
    {fd : Nat} (hfd : l.files fd = none) (hstatus : (l.slot i).status = .connecting) :
    Bound handler { l with
      files := update l.files fd (some ⟨l.occupant i, false⟩)
      slot := update l.slot i { l.slot i with fd := some fd, status := .connecting }
      pc := .resume .command } ep false := by
  have hsame : ∀ j,
      (update l.slot i { l.slot i with fd := some fd, status := .connecting } j).status
      = (l.slot j).status := SocketLoop.field_update Socket.status hstatus.symm
  have hhandler : ∀ j,
      (update l.slot i { l.slot i with fd := some fd, status := .connecting } j).handler
      = (l.slot j).handler := SocketLoop.field_update Socket.handler (by rfl)
  have hmoved := @Bound.move _ _ _ h hpc (.resume .command) (by rintro j ⟨⟩) (by rintro j ⟨⟩)
  refine { hmoved with claims := ?_, up := ?_, down := ?_, listening := ?_,
                       connects := by rintro j ⟨⟩, fails := by rintro j ⟨⟩,
                       hooked := by rintro ⟨⟩ }
  · intro j
    rw [hmoved.claims j, Mine, Mine, hsame j, hhandler j]
    rfl
  · intro hup
    obtain ⟨j, hj, hst⟩ := h.up hup
    exact ⟨j, hj, (hsame j).trans hst⟩
  · intro j hj hst
    exact hmoved.down j hj ((hsame j).symm.trans hst)
  · intro j n f hj _ hf hlistening
    show (update l.slot i _ j).handler ≠ _
    rw [hhandler j]
    by_cases hji : j = i
    · subst hji
      simp only [update_self, Option.some.injEq] at hj
      simp only [hj, update_self, Option.some.injEq] at hf
      rw [← hf] at hlistening
      cases hlistening
    · simp only [update_of_ne hji] at hj
      have hcloses : l.pc.closes ≠ some j := by simp [hpc.closes]
      obtain ⟨g, hg, -⟩ := hsound.fds j n hj hcloses
      have hne : n ≠ fd := by
        rintro rfl
        rw [hfd] at hg
        cases hg
      simp only [update_of_ne hne] at hf
      exact h.listening j n f hj hcloses hf hlistening

/-- `onClose` has returned and the slot is free: the endpoint has given it up before. -/
theorem Bound.freed (h : Bound handler l ep ran) (hends : Ends l i)
    (hran : (l.slot i).handler = some handler → ran = true) {s : Socket}
    (hidle : s.status = .idle) (hfd : s.fd = none) (k : Resume) :
    Bound handler { l with slot := update l.slot i s, pc := .resume k } ep false := by
  have hgone : ∀ j, ep.Claims j → j ≠ i := by
    rintro j hj rfl
    obtain ⟨hmine, hnot⟩ := (h.claims j).mp hj
    exact hnot ⟨hran hmine.1, hends⟩
  refine { h with claims := ?_, up := ?_, down := ?_, listening := ?_,
                  connects := by rintro j ⟨⟩, fails := by rintro j ⟨⟩, hooked := by rintro ⟨⟩ }
  · intro j
    constructor
    · intro hj
      refine ⟨?_, by simp⟩
      simpa only [Mine, update_of_ne (hgone j hj)] using ((h.claims j).mp hj).1
    · rintro ⟨hmine, -⟩
      have hji : j ≠ i := by
        rintro rfl
        have hstatus : (update l.slot j s j).status = .idle := by rw [update_self, hidle]
        exact hmine.status_ne (by decide) hstatus
      simp only [Mine, update_of_ne hji] at hmine
      exact (h.claims j).mpr ⟨hmine, fun hend => hji (hends.eq hend.2)⟩
  · intro hup
    obtain ⟨j, hj, hst⟩ := h.up hup
    exact ⟨j, hj, by simpa only [update_of_ne (hgone j (.inl hj))] using hst⟩
  · intro j hj hst
    simp only [update_of_ne (hgone j hj)] at hst
    exact .inl (h.connected_of_claims hends.connects hj hst)
  · intro j fd f hj _ hf hlistening
    by_cases hji : j = i
    · subst hji
      simp only [update_self, hfd] at hj
      cases hj
    · simp only [update_of_ne hji] at hj ⊢
      refine h.listening j fd f hj ?_ hf hlistening
      intro hcloses
      exact hji (hends.eq (.inl hcloses))

/-- `onConnect` has returned: the endpoint has learnt of the connection. -/
theorem Bound.returned (h : Bound handler l ep ran) {k : Resume} (hpc : l.pc = .onConnect i k)
    (hran : (l.slot i).handler = some handler → ran = true) (poll : SocketPoller) :
    Bound handler { l with poll := poll, pc := .resume k } ep false := by
  have hends : ∀ j, ¬ Ends l j := not_ends_of_onConnect hpc
  refine { h with claims := ?_, down := ?_, listening := ?_, connects := by rintro j ⟨⟩,
                  fails := by rintro j ⟨⟩, hooked := by rintro ⟨⟩ }
  · intro j
    rw [h.claims j]
    simp [hends, Mine]
  · intro j hj hst
    refine .inl ((h.down j hj hst).resolve_right ?_)
    rintro ⟨hconn, hfalse⟩
    rw [hpc] at hconn
    cases hconn
    rw [hran ((h.claims i).mp hj).1.1] at hfalse
    cases hfalse
  · intro j fd f hj _ hf hlistening
    exact h.listening j fd f hj (by rw [hpc]; rintro ⟨⟩) hf hlistening

/-- A step of the loop's thread that starts outside the callbacks of the kind, change by
change. -/
theorem Bound.change {l' : SocketLoop} {env : Env} (hpc₀ : hooks l₀.pc = none)
    (hwaits : ∀ i, l₀.connects (.net env) = some i → (l₀.slot i).status = .connecting)
    (hsound : l.Sound) (h : Bound handler l ep false)
    (hchange : Change l₀ (.net env) l l') : Bound handler l' ep false := by
  cases hchange with
  | misc => exact { h with }
  | reserve op i allocId hpicks ha => cases ha
  | publish _ c op hc ha => cases ha
  | push _ c op hc ha => cases ha
  | issue cmd ha => cases ha
  | reported _ events hevents => exact { h with }
  | eventDone _ rest hrest => exact { h with }
  | deliver _ effect targets i htargets => exact { h with }
  | goto _ pc hfrom hto hruns hk =>
    exact h.move hfrom (by simp [hto.connects]) (by simp [hto.fails])
  | pop _ cmd rest hqueue hpc =>
    have hmoved := @Bound.move _ _ _ h (by rw [hpc]; exact ⟨rfl, rfl, rfl⟩) (.running cmd)
      (by rintro i ⟨⟩) (by rintro i ⟨⟩)
    exact { hmoved with }
  | buffers _ i r w => exact h.setSlot rfl rfl rfl
  | rearm _ i fd poll hfd hcloses hpoll => exact { h with }
  | queued _ i targets hstatus htargets => exact { h with }
  | close _ i closeType k huse hpc hk => exact h.close hpc closeType k
  | clear i closeType k hpc =>
    rw [hpc] at hpc₀
    cases hpc₀
  | connectFailed i hconnects =>
    obtain ⟨id, target, hpc, -⟩ := SocketLoop.connects_eq_some hconnects
    refine h.move (by rw [hpc]; exact ⟨rfl, rfl, rfl⟩) (by rintro j ⟨⟩) ?_
    rintro j ⟨⟩
    exact hwaits i hconnects
  | idled i hpc =>
    rw [hpc] at hpc₀
    cases hpc₀
  | opened i fd hconnects hfd =>
    obtain ⟨id, target, hpc, -⟩ := SocketLoop.connects_eq_some hconnects
    exact h.opened hsound (by rw [hpc]; exact ⟨rfl, rfl, rfl⟩) hfd (hwaits i hconnects)
  | connected _ i fd k hpc hstatus hfd hk => exact h.connected hpc k hstatus
  | returned _ i k hpc =>
    rw [hpc] at hpc₀
    cases hpc₀
  | accepted i j fd s allocId f hpicks hpc hidle hhash hfd hs hf hlistening =>
    -- the listening slot has another handler, and hands it on
    have hhandler : (l.slot i).handler ≠ some handler :=
      h.listening i s f hs (by rw [hpc]; rintro ⟨⟩) hf hlistening
    have hold : ∀ n g, l.files n = some g →
        update l.files fd (some ⟨⟨j, l.gen j + 1⟩, false⟩) n = some g :=
      fun _ _ hn => SocketLoop.file_update hfd hn
    have hset : Bound handler { l with
        slot := update l.slot j { l.slot j with
          id := j, fd := some fd, type := .normal, status := .connected,
          handler := (l.slot i).handler }
        gen := update l.gen j (l.gen j + 1)
        files := update l.files fd (some ⟨⟨j, l.gen j + 1⟩, false⟩) } ep false :=
      h.setOther hsound (.inl hidle) (fun heq => absurd heq hhandler) hold
        (fun _ _ _ _ _ => hhandler)
    have hmoved := @Bound.move _ _ _ hset (by show l.pc.Plain; rw [hpc]; exact ⟨rfl, rfl, rfl⟩)
      (.onAccept j i) (by rintro k ⟨⟩) (by rintro k ⟨⟩)
    exact { hmoved with }

/-- A call of another user gets its slot. -/
theorem Bound.reserve (h : Bound handler l ep ran) (hsound : l.Sound) {op : Op}
    (hop : opHandler op ≠ handler) {l' : SocketLoop} (hstep : l.reserve op = some l') :
    Bound handler l' ep ran := by
  obtain ⟨allocId, ⟨-, rfl⟩ | ⟨i, -, hidle, -, hfd, rfl⟩⟩ := SocketLoop.reserve_cases hstep
  · exact { h with }
  · have hset : Bound handler { l with
        slot := update l.slot i { l.slot i with id := i, fd := none, status := .reserse }
        gen := update l.gen i (l.gen i + 1)
        files := op.opened ⟨i, l.gen i + 1⟩ l.files } ep ran := by
      refine h.setOther hsound (.inl hidle) (fun _ => ⟨by rintro ⟨⟩, by rintro ⟨⟩⟩) ?_
        (by rintro _ _ ⟨⟩)
      intro n g hn
      cases op with
      | connect handler' => exact hn
      | listen handler' fd => exact SocketLoop.file_update (hfd fd rfl) hn
    have hcall : ep.sending ≠ .reserved ⟨i, l.gen i + 1⟩ := by
      intro hsending
      have hgen := (hsound.calls ⟨i, l.gen i + 1⟩ (by simp [h.reserved _ hsending])).2.2
      simp only at hgen
      omega
    have hboth := hset.setCall (v := some (.reserved op)) (by rintro op' ⟨⟩; exact hop) hcall
    exact { hboth with }

/-- The loop's thread takes a step from outside the callbacks of the kind. -/
theorem Bound.netStep_plain (h : Bound handler l ep ran) (hsound : l.Sound) {env : Env}
    (hwaits : ∀ i, l.connects (.net env) = some i → (l.slot i).status = .connecting)
    (hadmits : l.Admits (.net env)) (hhooks : hooks l.pc = none)
    {l' : SocketLoop} (hstep : l.step (.net env) = some l') : Bound handler l' ep false := by
  have hfalse := h.ran_eq_false hhooks
  subst hfalse
  have hboth : l'.Sound ∧ Bound handler l' ep false := by
    refine SocketLoop.invariant_step (I := fun x => x.Sound ∧ Bound handler x ep false)
      hsound.ids ?_ hstep ⟨hsound, h⟩
    intro x y hx hchange
    exact ⟨hx.1.change hadmits hchange, hx.2.change hhooks hwaits hx.1 hchange⟩
  exact hboth.2

/-- The loop's thread takes a step; a callback of the endpoint has been through its critical
section when it returns. -/
theorem Bound.netStep (h : Bound handler l ep ran) (hsound : l.Sound) {env : Env}
    (hwaits : ∀ i, l.connects (.net env) = some i → (l.slot i).status = .connecting)
    (hadmits : l.Admits (.net env))
    (hran : ∀ i, hooks l.pc = some i → (l.slot i).handler = some handler → ran = true)
    {l' : SocketLoop} (hstep : l.netStep env = some l') : Bound handler l' ep false := by
  cases hpc : l.pc with
  | onConnect i k =>
    have hi := hran i (by rw [hpc]; rfl)
    simp only [SocketLoop.netStep, hpc, Option.some.injEq] at hstep
    subst hstep
    exact h.returned hpc hi _
  | closing i closeType k =>
    have hi := hran i (by rw [hpc]; rfl)
    simp only [SocketLoop.netStep, hpc, Option.some.injEq] at hstep
    subst hstep
    have hfreed := h.freed (s := { l.slot i with
      fd := none, status := .idle, readBuffer := none, writeBuffer := [] })
      (.inl (by rw [hpc]; rfl)) hi rfl rfl k
    exact { hfreed with }
  | failing i =>
    have hi := hran i (by rw [hpc]; rfl)
    simp only [SocketLoop.netStep, hpc, Option.some.injEq] at hstep
    subst hstep
    have hnone := (hsound.failing i (by rw [hpc]; rfl)).1
    exact h.freed (s := { l.slot i with status := .idle }) (.inr (by rw [hpc]; rfl)) hi rfl hnone
      .command
  | _ => exact h.netStep_plain hsound hwaits hadmits (by rw [hpc]; rfl) hstep

/-- `connectSocket` runs for a slot that waits for it, so no slot is pulled away. -/
theorem Bound.admits (h : Bound handler l ep ran) (hsound : l.Sound) {a : SocketLoop.Action}
    (hwaits : ∀ i, l.connects a = some i →
      (l.slot i).status = .connecting ∧ (l.slot i).fd = none) : l.Admits a where
  reserve := by
    intro i hpicks hfails
    have hidle := SocketLoop.status_of_picks hpicks
    rw [h.fails i hfails] at hidle
    cases hidle
  connect := by
    intro i hconnects
    obtain ⟨hstatus, hfd⟩ := hwaits i hconnects
    refine ⟨hfd, hsound.numbered i (by simp [hstatus]), ?_⟩
    intro op hop
    have hres := (hsound.reserved _ op hop).2.1
    rw [SocketLoop.occupant, hstatus] at hres
    cases hres

/-- The critical section of `onConnect`. -/
theorem Bound.onConnect (h : Bound handler l ep false) {k : Resume}
    (hpc : l.pc = .onConnect i k) (hhandler : (l.slot i).handler = some handler)
    (hfree : ep.sending = .free) :
    Bound handler l { ep with connected := true } true := by
  have hends : ∀ j, ¬ Ends l j := not_ends_of_onConnect hpc
  have hstatus := h.connects i (by rw [hpc]; rfl)
  have hclaim : ep.Claims i := (h.claims i).mpr ⟨⟨hhandler, .inr hstatus⟩, by simp⟩
  have hconn : ep.connId = some i := (claims_of_free hfree).mp hclaim
  refine { h with claims := ?_, up := fun _ => ⟨i, hconn, hstatus⟩,
                  down := fun _ _ _ => .inl rfl, hooked := fun _ => ⟨i, ?_, hhandler⟩ }
  · intro j
    show ep.Claims j ↔ _
    rw [h.claims j]
    simp [hends]
  · rw [hpc]
    rfl

/-- The critical section of `onClose` when the slot is another one than `m_connId`. -/
theorem Bound.onClose_other (h : Bound handler l ep false) (hends : Ends l i)
    (hhook : hooks l.pc = some i) (hhandler : (l.slot i).handler = some handler)
    (hfree : ep.sending = .free) (hconn : ep.connId ≠ some i) :
    Bound handler l ep true := by
  have hnot : ∀ j, ep.Claims j → ¬ Ends l j := by
    intro j hj hend
    rw [claims_of_free hfree, hends.eq hend] at hj
    exact hconn hj
  refine { h with claims := ?_, down := ?_, hooked := fun _ => ⟨i, hhook, hhandler⟩ }
  · intro j
    constructor
    · intro hj
      exact ⟨((h.claims j).mp hj).1, fun hend => hnot j hj hend.2⟩
    · rintro ⟨hmine, -⟩
      exact (h.claims j).mpr ⟨hmine, by simp⟩
  · intro j hj hst
    exact .inl (h.connected_of_claims hends.connects hj hst)

/-- The critical section of `onClose` for the slot of the endpoint. -/
theorem Bound.onClose_own (h : Bound handler l ep false) (hends : Ends l i)
    (hhook : hooks l.pc = some i) (hhandler : (l.slot i).handler = some handler)
    (hfree : ep.sending = .free) (hconn : ep.connId = some i) (buffer : IoBuffer) :
    Bound handler l { ep with connId := none, connected := false, buffer := buffer } true := by
  have hno : ∀ j, ¬ ProxyEndPoint.Claims
      { ep with connId := none, connected := false, buffer := buffer } j := by
    intro j
    simp [ProxyEndPoint.Claims, hfree]
  refine { h with claims := ?_, up := by rintro ⟨⟩, down := fun j hj => absurd hj (hno j),
                  busy := fun _ => rfl, hooked := fun _ => ⟨i, hhook, hhandler⟩ }
  intro j
  refine iff_of_false (hno j) ?_
  rintro ⟨hmine, hnot⟩
  have hj : ep.Claims j := (h.claims j).mpr ⟨hmine, by simp⟩
  rw [claims_of_free hfree, hconn, Option.some.injEq] at hj
  subst hj
  exact hnot ⟨rfl, hends⟩

end Bound

end Client

end StormNet.Framework
