import Mathlib.Data.List.Count
import Mathlib.Tactic.SplitIfs
import MltByteps.Mlt.Mesh

/-! What holds of a process of the mesh after each of its steps: where each of its connections
is. -/

namespace Mlt.Mesh

variable {V : Type}

def opened (socks : List Sock) (c s : ℤ) : ℕ :=
  socks.countP fun k => k.client = c ∧ k.server = s

structure SocksOk (socks : List Sock) : Prop where
  lt : ∀ k ∈ socks, k.client < k.server
  once : ∀ c s, opened socks c s ≤ 1

namespace UserPc

/-- A connection to `d` is about to be made. -/
def early (d : ℤ) : UserPc V → Bool
  | .makeMeta d' => d' = d
  | .connecting conn => conn.dest = d
  | _ => false

/-- A connection to `d` has been made and the reliable channel has not been told. -/
def late (d : ℤ) : UserPc V → Bool
  | .sendId ep => ep.conn.dest = d
  | .notifyChannel ep => ep.conn.dest = d
  | _ => false

def tells (d : ℤ) : UserPc V → Bool
  | .notifyPriority conn => conn.dest = d
  | _ => false

/-- The `ConnMeta` that the thread has a pointer to. -/
def conn? : UserPc V → Option Conn
  | .connecting conn => some conn
  | .sendId ep => some ep.conn
  | .notifyChannel ep => some ep.conn
  | .notifyPriority conn => some conn
  | _ => none

def endpoint? : UserPc V → Option Endpoint
  | .sendId ep => some ep
  | .notifyChannel ep => some ep
  | _ => none

end UserPc

namespace ChanPc

/-- The connection from `c` is being accepted. -/
def accepts (c : ℤ) : ChanPc → Bool
  | .recvId k => k.client = c
  | .newMeta k _ => k.client = c
  | .addEndpoint ep => ep.sock.client = c
  | _ => false

def tells (d : ℤ) : ChanPc → Bool
  | .notifyPriority conn => conn.dest = d
  | _ => false

def conn? : ChanPc → Option Conn
  | .addEndpoint ep => some ep.conn
  | .notifyPriority conn => some conn
  | _ => none

def sock? : ChanPc → Option Sock
  | .recvId k => some k
  | .newMeta k _ => some k
  | .addEndpoint ep => some ep.sock
  | _ => none

def Named : ChanPc → Prop
  | .newMeta k d => d = k.client
  | .addEndpoint ep => ep.conn.dest = ep.sock.client
  | _ => True

end ChanPc

namespace Proc

def toConnect (q : Proc V) (d : ℤ) : ℕ := q.prog.countP (Op.adds d) + (q.user.early d).toNat

def notified (q : Proc V) (d : ℤ) : ℕ := q.notifications.countP fun ep => ep.conn.dest = d

def reg (q : Proc V) (d : ℤ) : ℕ := (q.ctrlEndpoints.get? d).isSome.toNat

def arriving (q : Proc V) (c : ℤ) : ℕ :=
  q.backlog.countP (fun k => k.client = c) + (q.chan.accepts c).toNat

/-- How often the priority channel has been told or is about to be told of the connection. -/
def told (q : Proc V) (d : ℤ) : ℕ :=
  (q.connMetas.countP fun conn => conn.dest = d) +
    (q.prioNotifications.countP fun conn => conn.dest = d) +
    (q.user.tells d).toNat + (q.chan.tells d).toNat

/-- A connection is in one place at each of its ends, and every pointer to its `ConnMeta` is the
one in `id_conn_`. -/
structure Inv (S : Setup V) (socks : List Sock) (p : ℤ) (q : Proc V) : Prop where
  listening : q.listening = true ∨ q.user = .start
  adds : p ∈ S.nodes → ∀ d, q.prog.countP (Op.adds d) ≤ if d ∈ S.nodes ∧ d ≠ p then 1 else 0
  waits : p ∈ S.nodes → ∀ d, q.user = .waiting d → d < p ∧ d ∈ S.nodes
  toConnect : p ∈ S.nodes → ∀ d, p < d →
    q.toConnect d + opened socks p d = if d ∈ S.nodes then 1 else 0
  early : ∀ d, q.user.early d = true → p < d
  made : ∀ d, (q.user.late d).toNat + q.notified d + (if p < d then q.reg d else 0) =
    opened socks p d
  came : ∀ c, q.arriving c + (if c < p then q.reg c else 0) = opened socks c p
  told : ∀ d, q.notified d + q.reg d = q.told d
  dest : ∀ d conn, q.idConn.get? d = some conn → conn.dest = d
  user_conn : ∀ conn ∈ q.user.conn?, q.idConn.get? conn.dest = some conn
  chan_conn : ∀ conn ∈ q.chan.conn?, q.idConn.get? conn.dest = some conn
  prio_conn : ∀ conn ∈ q.prioNotifications ++ q.connMetas, q.idConn.get? conn.dest = some conn
  ep_conn : ∀ ep ∈ q.notifications, q.idConn.get? ep.conn.dest = some ep.conn
  ctrl_conn : ∀ d ep, q.ctrlEndpoints.get? d = some ep → q.idConn.get? d = some ep.conn
  user_sock : ∀ ep ∈ q.user.endpoint?, ep.sock ∈ socks ∧ ep.sock.client = p ∧
    ep.sock.server = ep.conn.dest
  ep_sock : ∀ ep ∈ q.notifications, ep.sock ∈ socks ∧ ep.sock.client = p ∧
    ep.sock.server = ep.conn.dest
  chan_sock : ∀ k ∈ q.chan.sock?, k ∈ socks ∧ k.server = p
  backlog_sock : ∀ k ∈ q.backlog, k ∈ socks ∧ k.server = p
  chan_named : q.chan.Named
  ctrl_sock : ∀ d ep, q.ctrlEndpoints.get? d = some ep → ep.sock ∈ socks ∧
    (p < d ∧ ep.sock.client = p ∧ ep.sock.server = d ∨
      d < p ∧ ep.sock.client = d ∧ ep.sock.server = p)
  accepted : ∀ d, d < p → (q.idConn.get? d).isSome → (∃ ep, q.chan = .addEndpoint ep ∧
    ep.conn.dest = d) ∨ (q.ctrlEndpoints.get? d).isSome

variable {S : Setup V} {socks : List Sock} {p : ℤ} {q : Proc V}

/-! ## The user's thread -/

theorem Inv.setUser {user : UserPc V} (h : q.Inv S socks p) (hlisten : q.listening = true)
    (hwaits : p ∈ S.nodes → ∀ d, user = .waiting d → d < p ∧ d ∈ S.nodes)
    (hearly : ∀ d, user.early d = q.user.early d) (hlate : ∀ d, user.late d = q.user.late d)
    (htells : ∀ d, user.tells d = q.user.tells d)
    (hconn : ∀ conn ∈ user.conn?, conn ∈ q.user.conn?)
    (hep : ∀ ep ∈ user.endpoint?, ep ∈ q.user.endpoint?) : Inv S socks p { q with user } :=
  { h with
    listening := .inl hlisten
    waits := hwaits
    toConnect := fun hp d hd => by
      rw [← h.toConnect hp d hd]
      simp only [Proc.toConnect, hearly]
    early := fun d hd => h.early d (hearly d ▸ hd)
    made := fun d => by
      rw [hlate]
      exact h.made d
    told := fun d => by
      rw [Proc.told, htells]
      exact h.told d
    user_conn := fun conn hc => h.user_conn conn (hconn conn hc)
    user_sock := fun ep he => h.user_sock ep (hep ep he) }

theorem Inv.listening_of_ne (h : q.Inv S socks p) (hu : q.user ≠ .start) : q.listening = true :=
  h.listening.resolve_right hu

theorem Inv.start (h : q.Inv S socks p) (hu : q.user = .start) :
    Inv S socks p { q with listening := true, user := .ready } := by
  have hlisten : Inv S socks p { q with listening := true } := { h with listening := .inl rfl }
  refine hlisten.setUser rfl (fun _ _ => nofun) ?_ ?_ ?_ nofun nofun <;> intro d <;>
    dsimp only <;> rw [hu] <;> rfl

theorem Inv.tail {op : Op V} {prog : List (Op V)} (h : q.Inv S socks p)
    (hprog : q.prog = op :: prog) (hop : ∀ d, op.adds d = false) :
    Inv S socks p { q with prog } := by
  have hcount : ∀ d, prog.countP (Op.adds d) = q.prog.countP (Op.adds d) := by
    intro d
    rw [hprog, List.countP_cons, hop d]
    simp
  exact { h with
    adds := fun hp d => by
      rw [hcount]
      exact h.adds hp d
    toConnect := fun hp d hd => by
      rw [Proc.toConnect, hcount]
      exact h.toConnect hp d hd }

theorem Inv.enqueue (h : q.Inv S socks p) (d : ℤ) (x : Signal V) : (q.enqueue d x).Inv S socks p :=
  { h with }

section AddConnection

variable {d : ℤ} {prog : List (Op V)} (h : q.Inv S socks p) (hp : p ∈ S.nodes)
  (hu : q.user = .ready) (hprog : q.prog = .addConnection d :: prog)

theorem countP_addConnection (d' : ℤ) : (Op.addConnection d :: prog).countP (Op.adds d') =
    prog.countP (Op.adds d') + if d = d' then 1 else 0 := by
  rw [List.countP_cons]
  simp [Op.adds]

include h hp hprog in
theorem Inv.mem_nodes : d ∈ S.nodes ∧ d ≠ p := by
  have hle := h.adds hp d
  rw [hprog, countP_addConnection, if_pos rfl] at hle
  by_contra hnot
  rw [if_neg hnot] at hle
  omega

include h hp hprog in
theorem Inv.adds_tail (d' : ℤ) :
    prog.countP (Op.adds d') ≤ if d' ∈ S.nodes ∧ d' ≠ p then 1 else 0 := by
  have hle := h.adds hp d'
  rw [hprog, countP_addConnection] at hle
  omega

include h hp hu hprog in
theorem Inv.callWaiting (hd : d ≤ p) : Inv S socks p { q with prog, user := .waiting d } := by
  obtain ⟨hmem, hne⟩ := h.mem_nodes hp hprog
  have hlt : d < p := lt_of_le_of_ne hd hne
  exact { h with
    listening := .inl (h.listening_of_ne (by rw [hu]; exact nofun))
    adds := fun _ => h.adds_tail hp hprog
    waits := fun _ d' hd' => by
      cases hd'
      exact ⟨hlt, hmem⟩
    toConnect := fun _ d' hd' => by
      have hcount := h.toConnect hp d' hd'
      rw [Proc.toConnect, hprog, hu, countP_addConnection, if_neg (by omega)] at hcount
      exact hcount
    early := fun _ => nofun
    made := fun d' => by
      have hmade := h.made d'
      rw [hu] at hmade
      exact hmade
    told := fun d' => by
      have htold := h.told d'
      rw [Proc.told, hu] at htold
      exact htold
    user_conn := nofun
    user_sock := nofun }

include h hp hu hprog in
theorem Inv.callMakeMeta (hd : p < d) : Inv S socks p { q with prog, user := .makeMeta d } :=
  { h with
    listening := .inl (h.listening_of_ne (by rw [hu]; exact nofun))
    adds := fun _ => h.adds_tail hp hprog
    waits := fun _ _ => nofun
    toConnect := fun _ d' hd' => by
      have hcount := h.toConnect hp d' hd'
      rw [Proc.toConnect, hprog, hu, countP_addConnection] at hcount
      simp only [Proc.toConnect, UserPc.early] at hcount ⊢
      by_cases hdd : d = d' <;> simp [hdd] at hcount ⊢ <;> omega
    early := fun d' hd' => by
      have hdd : d = d' := by simpa [UserPc.early] using hd'
      exact hdd ▸ hd
    made := fun d' => by
      have hmade := h.made d'
      rw [hu] at hmade
      exact hmade
    told := fun d' => by
      have htold := h.told d'
      rw [Proc.told, hu] at htold
      exact htold
    user_conn := nofun
    user_sock := nofun }

end AddConnection

theorem Inv.call (h : q.Inv S socks p) (hp : p ∈ S.nodes) (hu : q.user = .ready) :
    (q.call p).Inv S socks p := by
  unfold Proc.call
  rcases hprog : q.prog with _ | ⟨_ | _ | _, prog⟩ <;> dsimp only
  case nil => exact h
  case cons.addConnection d =>
    split_ifs with hd
    · exact h.callWaiting hp hu hprog hd
    · exact h.callMakeMeta hp hu hprog (lt_of_not_ge hd)
  case cons.sendMeta d v => exact (h.tail hprog fun _ => rfl).enqueue d _
  case cons.postSend d v =>
    have hlisten := h.listening_of_ne (by rw [hu]; exact nofun)
    refine ((h.tail hprog fun _ => rfl).enqueue d (.flowStart v)).setUser hlisten
      (fun _ _ => nofun) ?_ ?_ ?_ nofun nofun <;> intro d' <;> dsimp only [Proc.enqueue] <;>
      rw [hu] <;> rfl

theorem Inv.waiting {d : ℤ} (h : q.Inv S socks p) (hu : q.user = .waiting d) :
    Inv S socks p { q with user := .ready, added := q.added ++ [d] } := by
  have hready : Inv S socks p { q with user := .ready } := by
    refine h.setUser (h.listening_of_ne (by rw [hu]; exact nofun)) (fun _ _ => nofun) ?_ ?_ ?_
      nofun nofun <;> intro d' <;> rw [hu] <;> rfl
  exact { hready with }

theorem Inv.enqueueSend {d : ℤ} {v : V} (h : q.Inv S socks p) (hu : q.user = .enqueueSend d v) :
    Inv S socks p { q with srQueue := q.srQueue ++ [(d, v)], user := .ready } := by
  have hready : Inv S socks p { q with user := .ready } := by
    refine h.setUser (h.listening_of_ne (by rw [hu]; exact nofun)) (fun _ _ => nofun) ?_ ?_ ?_
      nofun nofun <;> intro d' <;> rw [hu] <;> rfl
  exact { hready with }

theorem Inv.setConn {d : ℤ} {conn : Conn} (h : q.Inv S socks p) (hnone : q.idConn.get? d = none)
    (hdest : conn.dest = d) (hd : p < d) (allocs : ℕ) :
    Inv S socks p { q with idConn := q.idConn.set d conn, allocs } := by
  have hkeep : ∀ d' conn', q.idConn.get? d' = some conn' →
      (q.idConn.set d conn).get? d' = some conn' := by
    intro d' conn' hget
    rw [Dict.get?_set, if_neg, hget]
    rintro rfl
    rw [hnone] at hget
    cases hget
  exact { h with
    dest := Dict.forall_get?_set h.dest hdest
    user_conn := fun c hc => hkeep _ _ (h.user_conn c hc)
    chan_conn := fun c hc => hkeep _ _ (h.chan_conn c hc)
    prio_conn := fun c hc => hkeep _ _ (h.prio_conn c hc)
    ep_conn := fun ep hep => hkeep _ _ (h.ep_conn ep hep)
    ctrl_conn := fun d' ep hep => hkeep _ _ (h.ctrl_conn d' ep hep)
    accepted := fun d' hd' hsome => by
      rw [Dict.get?_set, if_neg (by omega)] at hsome
      exact h.accepted d' hd' hsome }

theorem Inv.setConnecting {d : ℤ} {conn : Conn} (h : q.Inv S socks p) (hu : q.user = .makeMeta d)
    (hget : q.idConn.get? d = some conn) : Inv S socks p { q with user := .connecting conn } := by
  have hdest := h.dest d conn hget
  exact { h with
    listening := .inl (h.listening_of_ne (by rw [hu]; exact nofun))
    waits := fun _ _ => nofun
    toConnect := fun hp d' hd' => by
      have hcount := h.toConnect hp d' hd'
      rw [Proc.toConnect, hu] at hcount
      rw [Proc.toConnect, UserPc.early, hdest]
      exact hcount
    early := fun d' hd' => by
      refine h.early d' ?_
      rw [UserPc.early, hdest] at hd'
      rw [hu]
      exact hd'
    made := fun d' => by
      have hmade := h.made d'
      rw [hu] at hmade
      exact hmade
    told := fun d' => by
      have htold := h.told d'
      rw [Proc.told, hu] at htold
      exact htold
    user_conn := fun c hc => by
      cases hc
      rw [hdest]
      exact hget
    user_sock := nofun }

theorem Inv.makeMeta {d : ℤ} (h : q.Inv S socks p) (hu : q.user = .makeMeta d) :
    (q.makeMeta d).Inv S socks p := by
  unfold Proc.makeMeta
  rcases hget : q.idConn.get? d with _ | conn
  · have hd : p < d := h.early d (by rw [hu]; simp [UserPc.early])
    have hset : Inv S socks p { q with
        idConn := q.idConn.set d ⟨d, q.allocs⟩, allocs := q.allocs + 1 } :=
      h.setConn hget rfl hd (q.allocs + 1)
    refine hset.setConnecting hu ?_
    rw [Dict.get?_set, if_pos rfl]
  · exact h.setConnecting hu hget

theorem Inv.sendId {ep : Endpoint} (h : q.Inv S socks p) (hu : q.user = .sendId ep) :
    Inv S socks p { q with user := .notifyChannel ep } := by
  refine h.setUser (h.listening_of_ne (by rw [hu]; exact nofun)) (fun _ _ => nofun) ?_ ?_ ?_ ?_ ?_
  · intro d
    rw [hu]
    rfl
  · intro d
    rw [hu]
    rfl
  · intro d
    rw [hu]
    rfl
  · intro conn hconn
    rw [hu]
    exact hconn
  · intro ep' hep
    rw [hu]
    exact hep

theorem countP_append_singleton {α : Type} (f : α → Bool) (l : List α) (x : α) :
    (l ++ [x]).countP f = l.countP f + (f x).toNat := by
  rw [List.countP_append, List.countP_singleton]
  cases f x <;> rfl

theorem Inv.notifyChannel {ep : Endpoint} (h : q.Inv S socks p) (hu : q.user = .notifyChannel ep) :
    Inv S socks p
      { q with notifications := q.notifications ++ [ep], user := .notifyPriority ep.conn } := by
  have hnot : ∀ d, (q.notifications ++ [ep]).countP (fun e => e.conn.dest = d) =
      q.notified d + (decide (ep.conn.dest = d)).toNat := fun d => countP_append_singleton _ _ _
  exact { h with
    listening := .inl (h.listening_of_ne (by rw [hu]; exact nofun))
    waits := fun _ _ => nofun
    toConnect := fun hp d hd => by
      have hcount := h.toConnect hp d hd
      rw [Proc.toConnect, hu] at hcount
      exact hcount
    early := fun _ => nofun
    made := fun d => by
      have hmade := h.made d
      rw [hu] at hmade
      rw [notified, hnot, ← hmade]
      simp only [UserPc.late, Bool.toNat_false, reg]
      omega
    told := fun d => by
      have htold := h.told d
      rw [Proc.told, hu] at htold
      rw [Proc.told, notified, hnot]
      simp only [UserPc.tells, Bool.toNat_false, reg] at htold ⊢
      omega
    user_conn := fun c hc => by
      cases hc
      exact h.user_conn ep.conn (by rw [hu]; rfl)
    ep_conn := fun e he => by
      rcases List.mem_append.mp he with he | he
      · exact h.ep_conn e he
      · rw [List.mem_singleton.mp he]
        exact h.user_conn ep.conn (by rw [hu]; rfl)
    user_sock := nofun
    ep_sock := fun e he => by
      rcases List.mem_append.mp he with he | he
      · exact h.ep_sock e he
      · rw [List.mem_singleton.mp he]
        exact h.user_sock ep (by rw [hu]; rfl) }

theorem Inv.userNotifyPriority {conn : Conn} (h : q.Inv S socks p)
    (hu : q.user = .notifyPriority conn) : Inv S socks p { q with
      prioNotifications := q.prioNotifications ++ [conn]
      user := .ready
      added := q.added ++ [conn.dest] } :=
  { h with
    listening := .inl (h.listening_of_ne (by rw [hu]; exact nofun))
    waits := fun _ _ => nofun
    toConnect := fun hp d hd => by
      have hcount := h.toConnect hp d hd
      rw [Proc.toConnect, hu] at hcount
      exact hcount
    early := fun _ => nofun
    made := fun d => by
      have hmade := h.made d
      rw [hu] at hmade
      exact hmade
    told := fun d => by
      have htold := h.told d
      rw [Proc.told, hu] at htold
      rw [Proc.told, countP_append_singleton]
      simp only [UserPc.tells, Bool.toNat_false, notified, reg] at htold ⊢
      omega
    user_conn := nofun
    prio_conn := fun c hc => by
      simp only [List.mem_append, List.mem_singleton] at hc
      rcases hc with (hc | rfl) | hc
      · exact h.prio_conn c (List.mem_append_left _ hc)
      · exact h.user_conn c (by rw [hu]; rfl)
      · exact h.prio_conn c (List.mem_append_right _ hc)
    user_sock := nofun }

/-! ## The reliable channel -/

theorem Inv.setChan {chan : ChanPc} (h : q.Inv S socks p)
    (haccepts : ∀ c, chan.accepts c = q.chan.accepts c)
    (htells : ∀ d, chan.tells d = q.chan.tells d)
    (hconn : ∀ conn ∈ chan.conn?, conn ∈ q.chan.conn?)
    (hsock : ∀ k ∈ chan.sock?, k ∈ q.chan.sock?) (hnamed : chan.Named)
    (hadd : ∀ ep, q.chan = .addEndpoint ep → chan = .addEndpoint ep) :
    Inv S socks p { q with chan } :=
  { h with
    came := fun c => by
      rw [Proc.arriving, haccepts]
      exact h.came c
    told := fun d => by
      rw [Proc.told, htells]
      exact h.told d
    chan_conn := fun conn hc => h.chan_conn conn (hconn conn hc)
    chan_sock := fun k hk => h.chan_sock k (hsock k hk)
    chan_named := hnamed
    accepted := fun d hd hsome => (h.accepted d hd hsome).imp_left
      fun ⟨ep, hchan, hdest⟩ => ⟨ep, hadd ep hchan, hdest⟩ }

theorem Inv.moveChan {chan : ChanPc} (h : q.Inv S socks p)
    (hfrom : q.chan = .epoll ∨ q.chan = .notifications ∨ q.chan = .tx)
    (hto : chan = .epoll ∨ chan = .notifications ∨ chan = .tx) : Inv S socks p { q with chan } := by
  have hnamed : chan.Named := by rcases hto with rfl | rfl | rfl <;> trivial
  refine h.setChan ?_ ?_ ?_ ?_ hnamed ?_ <;> rcases hfrom with hf | hf | hf <;> rw [hf] <;>
    rcases hto with rfl | rfl | rfl <;> first | exact fun _ => rfl | exact nofun

theorem Inv.accept {k : Sock} {backlog : List Sock} (h : q.Inv S socks p) (hc : q.chan = .epoll)
    (hb : q.backlog = k :: backlog) : Inv S socks p { q with backlog, chan := .recvId k } :=
  { h with
    came := fun c => by
      have hcame := h.came c
      rw [Proc.arriving, hb, hc, List.countP_cons] at hcame
      rw [Proc.arriving, ← hcame]
      simp only [ChanPc.accepts, Bool.toNat_false, reg]
      by_cases hkc : k.client = c <;> simp [hkc]
    told := fun d => by
      have htold := h.told d
      rw [Proc.told, hc] at htold
      exact htold
    chan_conn := nofun
    chan_sock := fun k' hk' => by
      cases hk'
      exact h.backlog_sock k (by rw [hb]; exact List.mem_cons_self)
    backlog_sock := fun k' hk' => h.backlog_sock k' (by rw [hb]; exact List.mem_cons_of_mem _ hk')
    chan_named := trivial
    accepted := fun d hd hsome => (h.accepted d hd hsome).imp_left
      fun ⟨ep, hchan, _⟩ => nomatch hc.symm.trans hchan }

theorem Inv.recvId {k : Sock} (h : q.Inv S socks p) (hc : q.chan = .recvId k) :
    Inv S socks p { q with chan := .newMeta k k.client } := by
  refine h.setChan ?_ ?_ nofun ?_ rfl ?_ <;> rw [hc]
  · exact fun _ => rfl
  · exact fun _ => rfl
  · exact fun k' hk' => hk'
  · exact nofun

theorem Inv.reg_eq_zero {c : ℤ} (h : q.Inv S socks p) (hsocks : SocksOk socks) (hc : c < p)
    (haccepts : q.chan.accepts c = true) : q.ctrlEndpoints.get? c = none := by
  have hcame := h.came c
  have hone := hsocks.once c p
  rw [Proc.arriving, haccepts, if_pos hc, reg] at hcame
  rcases hget : q.ctrlEndpoints.get? c with _ | ep
  · rfl
  · rw [hget] at hcame
    simp at hcame
    omega

theorem Inv.newMeta {k : Sock} {d : ℤ} (h : q.Inv S socks p) (hsocks : SocksOk socks)
    (hc : q.chan = .newMeta k d) : (q.newMeta k d).Inv S socks p := by
  have hdest : d = k.client := by
    have hnamed := h.chan_named
    rw [hc] at hnamed
    exact hnamed
  obtain ⟨hk, hserver⟩ := h.chan_sock k (by rw [hc]; rfl)
  have hlt : d < p := by
    have hlt := hsocks.lt k hk
    omega
  have hreg := h.reg_eq_zero hsocks hlt (by rw [hc]; simp [ChanPc.accepts, hdest])
  -- so there is no `ConnMeta` that would be replaced
  have hnone : q.idConn.get? d = none := by
    rw [← Option.not_isSome_iff_eq_none]
    intro hsome
    rcases h.accepted d hlt hsome with ⟨ep, hchan, -⟩ | hsome
    · exact nomatch hc.symm.trans hchan
    · rw [hreg] at hsome
      cases hsome
  have hkeep : ∀ d' conn', q.idConn.get? d' = some conn' →
      (q.idConn.set d ⟨d, q.allocs⟩).get? d' = some conn' := by
    intro d' conn' hget
    rw [Dict.get?_set, if_neg, hget]
    rintro rfl
    rw [hnone] at hget
    cases hget
  exact { h with
    came := fun c => by
      have hcame := h.came c
      rw [Proc.arriving, hc] at hcame
      exact hcame
    told := fun d' => by
      have htold := h.told d'
      rw [Proc.told, hc] at htold
      exact htold
    dest := Dict.forall_get?_set h.dest (show Conn.dest ⟨d, q.allocs⟩ = d from rfl)
    user_conn := fun c hc' => hkeep _ _ (h.user_conn c hc')
    chan_conn := fun c hc' => by
      cases hc'
      rw [Proc.newMeta, Dict.get?_set, if_pos rfl]
    prio_conn := fun c hc' => hkeep _ _ (h.prio_conn c hc')
    ep_conn := fun ep hep => hkeep _ _ (h.ep_conn ep hep)
    ctrl_conn := fun d' ep hep => hkeep _ _ (h.ctrl_conn d' ep hep)
    chan_sock := fun k' hk' => by
      cases hk'
      exact ⟨hk, hserver⟩
    chan_named := hdest
    accepted := fun d' hd' hsome => by
      rw [Proc.newMeta, Dict.get?_set] at hsome
      split_ifs at hsome with heq
      · exact .inl ⟨_, rfl, heq.symm⟩
      · rcases h.accepted d' hd' hsome with ⟨ep, hchan, -⟩ | hreg'
        · exact nomatch hc.symm.trans hchan
        · exact .inr hreg' }

theorem reg_set {d d' : ℤ} {ep : Endpoint} :
    ((q.ctrlEndpoints.set d ep).get? d').isSome.toNat =
      if d' = d then 1 else q.reg d' := by
  rw [Dict.get?_set]
  split_ifs <;> rfl

theorem Inv.addAccepted {ep : Endpoint} (h : q.Inv S socks p) (hsocks : SocksOk socks)
    (hc : q.chan = .addEndpoint ep) :
    q.ctrlEndpoints.get? ep.conn.dest = none ∧ Inv S socks p { q with
      ctrlEndpoints := q.ctrlEndpoints.set ep.conn.dest ep, chan := .notifyPriority ep.conn } := by
  have hdest : ep.conn.dest = ep.sock.client := by
    have hnamed := h.chan_named
    rw [hc] at hnamed
    exact hnamed
  obtain ⟨hk, hserver⟩ := h.chan_sock ep.sock (by rw [hc]; rfl)
  have hlt : ep.conn.dest < p := by
    have hlt := hsocks.lt _ hk
    omega
  have hnone := h.reg_eq_zero hsocks hlt (by rw [hc]; simp [ChanPc.accepts, hdest])
  have hzero : q.reg ep.conn.dest = 0 := by rw [reg, hnone]; rfl
  have hconn := h.chan_conn ep.conn (by rw [hc]; rfl)
  refine ⟨hnone, { h with
    made := fun d => ?_
    came := fun c => ?_
    told := fun d => ?_
    chan_conn := fun c hc' => ?_
    ctrl_conn := Dict.forall_get?_set h.ctrl_conn hconn
    chan_sock := nofun
    chan_named := trivial
    ctrl_sock := Dict.forall_get?_set h.ctrl_sock ⟨hk, .inr ⟨hlt, hdest.symm, hserver⟩⟩
    accepted := fun d hd hsome => ?_ }⟩
  · have hmade := h.made d
    by_cases hd : p < d
    · rw [if_pos hd] at hmade ⊢
      rw [Proc.reg, reg_set, if_neg (by omega)]
      exact hmade
    · rw [if_neg hd] at hmade ⊢
      exact hmade
  · have hcame := h.came c
    rw [Proc.arriving, hc] at hcame
    rw [Proc.reg, reg_set, Proc.arriving, ← hcame]
    simp only [ChanPc.accepts, Bool.toNat_false]
    by_cases hcd : c = ep.conn.dest
    · subst hcd
      rw [if_pos hlt, if_pos hlt, if_pos rfl, hzero, hdest]
      simp
    · have hcc : ep.sock.client ≠ c := fun heq => hcd (heq ▸ hdest.symm)
      simp [hcd, hcc]
  · have htold := h.told d
    rw [Proc.told, hc] at htold
    rw [Proc.reg, reg_set, Proc.told]
    simp only [ChanPc.tells, Bool.toNat_false] at htold ⊢
    by_cases hcd : d = ep.conn.dest
    · subst hcd
      rw [hzero] at htold
      simp only [if_pos, decide_true, Bool.toNat_true, notified] at htold ⊢
      omega
    · have hcc : ep.conn.dest ≠ d := fun heq => hcd heq.symm
      simp only [if_neg hcd, hcc, decide_false, Bool.toNat_false]
      exact htold
  · cases hc'
    exact hconn
  · right
    rw [Dict.get?_set]
    split_ifs with heq
    · rfl
    · rcases h.accepted d hd hsome with ⟨ep', hchan, hdest'⟩ | hreg
      · cases hc.symm.trans hchan
        exact absurd hdest'.symm heq
      · exact hreg

theorem Inv.chanNotifyPriority {conn : Conn} (h : q.Inv S socks p)
    (hc : q.chan = .notifyPriority conn) : Inv S socks p { q with
      prioNotifications := q.prioNotifications ++ [conn], chan := .epoll } :=
  { h with
    came := fun c => by
      have hcame := h.came c
      rw [Proc.arriving, hc] at hcame
      exact hcame
    told := fun d => by
      have htold := h.told d
      rw [Proc.told, hc] at htold
      rw [Proc.told, countP_append_singleton]
      simp only [ChanPc.tells, Bool.toNat_false, notified, reg] at htold ⊢
      omega
    chan_conn := nofun
    prio_conn := fun c hc' => by
      simp only [List.mem_append, List.mem_singleton] at hc'
      rcases hc' with (hc' | rfl) | hc'
      · exact h.prio_conn c (List.mem_append_left _ hc')
      · exact h.chan_conn c (by rw [hc]; rfl)
      · exact h.prio_conn c (List.mem_append_right _ hc')
    chan_sock := nofun
    chan_named := trivial
    accepted := fun d hd hsome => (h.accepted d hd hsome).imp_left
      fun ⟨ep, hchan, _⟩ => nomatch hc.symm.trans hchan }

theorem Inv.addConnected {ep : Endpoint} {notifications : List Endpoint} (h : q.Inv S socks p)
    (hsocks : SocksOk socks) (hn : q.notifications = ep :: notifications) :
    q.ctrlEndpoints.get? ep.conn.dest = none ∧ Inv S socks p { q with
      notifications, ctrlEndpoints := q.ctrlEndpoints.set ep.conn.dest ep } := by
  have hmem : ep ∈ q.notifications := by rw [hn]; exact List.mem_cons_self
  obtain ⟨hk, hclient, hserver⟩ := h.ep_sock ep hmem
  have hlt : p < ep.conn.dest := by
    have hlt := hsocks.lt _ hk
    omega
  have hcons : ∀ d, q.notified d = notifications.countP (fun e => e.conn.dest = d) +
      if ep.conn.dest = d then 1 else 0 := by
    intro d
    rw [notified, hn, List.countP_cons]
    simp
  have hnone : q.ctrlEndpoints.get? ep.conn.dest = none := by
    have hmade := h.made ep.conn.dest
    have hone := hsocks.once p ep.conn.dest
    rw [hcons, if_pos rfl, if_pos hlt, reg] at hmade
    rcases hget : q.ctrlEndpoints.get? ep.conn.dest with _ | e
    · rfl
    · rw [hget] at hmade
      simp at hmade
      omega
  have hzero : q.reg ep.conn.dest = 0 := by rw [reg, hnone]; rfl
  refine ⟨hnone, { h with
    made := fun d => ?_
    came := fun c => ?_
    told := fun d => ?_
    ep_conn := fun e he => h.ep_conn e (by rw [hn]; exact List.mem_cons_of_mem _ he)
    ctrl_conn := Dict.forall_get?_set h.ctrl_conn (h.ep_conn ep hmem)
    ep_sock := fun e he => h.ep_sock e (by rw [hn]; exact List.mem_cons_of_mem _ he)
    ctrl_sock := Dict.forall_get?_set h.ctrl_sock ⟨hk, .inl ⟨hlt, hclient, hserver⟩⟩
    accepted := fun d hd hsome => ?_ }⟩
  · have hmade := h.made d
    rw [hcons] at hmade
    rw [Proc.notified, Proc.reg, reg_set, ← hmade]
    by_cases hd : d = ep.conn.dest
    · subst hd
      simp only [if_pos, hlt, hzero]
      omega
    · have hd' : ep.conn.dest ≠ d := fun heq => hd heq.symm
      simp only [if_neg hd, if_neg hd', Nat.add_zero]
  · have hcame := h.came c
    rw [Proc.reg, reg_set, ← hcame]
    by_cases hcp : c < p
    · rw [if_pos hcp, if_pos hcp, if_neg (by omega)]
      rfl
    · rw [if_neg hcp, if_neg hcp]
      rfl
  · have htold := h.told d
    rw [hcons] at htold
    rw [Proc.notified, Proc.reg, reg_set]
    by_cases hd : d = ep.conn.dest
    · subst hd
      rw [if_pos rfl, hzero] at htold
      rw [if_pos rfl]
      exact htold
    · rw [if_neg fun heq => hd heq.symm] at htold
      rw [if_neg hd]
      exact htold
  · refine (h.accepted d hd hsome).imp_right fun hreg => ?_
    rw [Dict.get?_set, if_neg (by omega)]
    exact hreg

/-! ## The priority channel -/

theorem Inv.sendRequest {q' : Proc V} {d : ℤ} {v : V} (h : q.Inv S socks p)
    (hok : q.sendRequest d v = .ok q') : q'.Inv S socks p := by
  unfold Proc.sendRequest at hok
  dsimp only at hok
  split at hok
  · cases hok
  · cases hok
    exact { h with }

theorem Inv.addConnection {conn : Conn} {prioNotifications : List Conn} (h : q.Inv S socks p)
    (hn : q.prioNotifications = conn :: prioNotifications) :
    (Proc.addConnection conn { q with prioNotifications }).Inv S socks p :=
  { h with
    told := fun d => by
      have htold := h.told d
      rw [Proc.told, hn, List.countP_cons] at htold
      rw [Proc.told, Proc.addConnection]
      simp only [countP_append_singleton, notified, reg] at htold ⊢
      by_cases hd : conn.dest = d <;> simp [hd] at htold ⊢ <;> omega
    prio_conn := fun c hc => by
      refine h.prio_conn c ?_
      rw [hn]
      simp only [Proc.addConnection, List.mem_append, List.mem_cons] at hc ⊢
      tauto }

theorem prioStep_cases {q' : Proc V} (hok : q.prioStep = .ok q') :
    (∃ prio, q' = { q with prio }) ∨
    (∃ d v srQueue, q.prio = .sendRequests ∧ q.srQueue = (d, v) :: srQueue ∧
      Proc.sendRequest d v { q with srQueue } = .ok q') ∨
    ∃ conn prioNotifications, q.prioNotifications = conn :: prioNotifications ∧
      q' = Proc.addConnection conn { q with prioNotifications } := by
  unfold Proc.prioStep at hok
  split at hok
  · next hprio =>
    split at hok
    · cases hok
      exact .inl ⟨_, rfl⟩
    · next d v srQueue hsr => exact .inr (.inl ⟨d, v, srQueue, hprio, hsr, hok⟩)
  · split at hok
    · cases hok
      exact .inl ⟨_, rfl⟩
    · next conn prioNotifications hn =>
      cases hok
      exact .inr (.inr ⟨conn, prioNotifications, hn, rfl⟩)

theorem Inv.prioStep {q' : Proc V} (h : q.Inv S socks p) (hok : q.prioStep = .ok q') :
    q'.Inv S socks p := by
  rcases prioStep_cases hok with ⟨prio, rfl⟩ | ⟨d, v, srQueue, -, -, hok⟩ | ⟨conn, rest, hn, rfl⟩
  · exact { h with }
  · exact Inv.sendRequest (q := { q with srQueue }) { h with } hok
  · exact h.addConnection hn

end Proc

end Mlt.Mesh
