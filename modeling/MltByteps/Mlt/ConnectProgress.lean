import Mathlib.Algebra.BigOperators.Group.Finset.Basic
import Mathlib.Algebra.Order.BigOperators.Group.Finset
import Mathlib.Data.Finset.Max
import MltByteps.Lib.Progress
import MltByteps.Mlt.ConnectSetup

/-! The mesh gets connected: however the threads take turns, they run out of work, and then every
process has finished its calls and has an endpoint to every other. -/

namespace Mlt.Mesh

variable {V : Type} {S : Setup V} {p : ℤ}

/-! ## The work that is left -/

def Op.weight : Op V → ℕ
  | .addConnection _ => 18
  | .sendMeta _ _ => 6
  | .postSend _ _ => 7

def UserPc.weight : UserPc V → ℕ
  | .start => 1
  | .ready => 0
  | .waiting _ => 1
  | .makeMeta _ => 17
  | .connecting _ => 16
  | .sendId _ => 7
  | .notifyChannel _ => 6
  | .notifyPriority _ => 1
  | .enqueueSend _ _ => 1

/-- With `a` notifications and `b` signals to send: a channel that has missed a notification goes
round its loop once more. -/
def ChanPc.weight (a b : ℕ) : ChanPc → ℕ
  | .epoll => if a = 0 ∧ b = 0 then 0 else 3
  | .recvId _ => 7
  | .newMeta _ _ => 6
  | .addEndpoint _ => 5
  | .notifyPriority _ => 4
  | .notifications => 2
  | .tx => if a = 0 then 1 else 4

theorem ChanPc.weight_succ_left (a b : ℕ) (c : ChanPc) : c.weight (a + 1) b ≤ c.weight a b + 3 := by
  cases c with
  | epoll | tx =>
    simp only [ChanPc.weight]
    split_ifs <;> omega
  | _ => exact Nat.le_add_right _ 3

theorem ChanPc.weight_succ_right (a b : ℕ) (c : ChanPc) :
    c.weight a (b + 1) ≤ c.weight a b + 3 := by
  cases c with
  | epoll | tx =>
    simp only [ChanPc.weight]
    split_ifs <;> omega
  | _ => exact Nat.le_add_right _ 3

namespace Proc

variable {q q' : Proc V}

def chanWork (q : Proc V) : ℕ :=
  q.chan.weight q.notifications.length q.txQueue.length + q.notifications.length +
    2 * q.txQueue.length

def progWork : List (Op V) → ℕ
  | [] => 0
  | op :: prog => op.weight + progWork prog

def rank (q : Proc V) : ℕ :=
  progWork q.prog + q.user.weight + 8 * q.backlog.length + q.chanWork

theorem chanWork_enqueue (d : ℤ) (x : Signal V) : (q.enqueue d x).chanWork ≤ q.chanWork + 5 := by
  have hle := ChanPc.weight_succ_right q.notifications.length q.txQueue.length q.chan
  simp only [chanWork, enqueue, List.length_append, List.length_singleton]
  omega

theorem chanWork_notify (ep : Endpoint) :
    chanWork { q with notifications := q.notifications ++ [ep] } ≤ q.chanWork + 4 := by
  have hle := ChanPc.weight_succ_left q.notifications.length q.txQueue.length q.chan
  simp only [chanWork, List.length_append, List.length_singleton]
  omega

theorem rank_lt (hbacklog : q'.backlog = q.backlog)
    (hlt : progWork q'.prog + q'.user.weight + q'.chanWork <
      progWork q.prog + q.user.weight + q.chanWork) : q'.rank < q.rank := by
  rw [rank, rank, hbacklog]
  omega

theorem rank_lt_of_user (hbacklog : q'.backlog = q.backlog) (hprog : q'.prog = q.prog)
    (hwork : q'.chanWork = q.chanWork) (hlt : q'.user.weight < q.user.weight) :
    q'.rank < q.rank := by
  refine rank_lt hbacklog ?_
  rw [hprog, hwork]
  omega

theorem rank_call (hu : q.user = .ready) (hprog : q.prog ≠ []) : (q.call p).rank < q.rank := by
  unfold call
  split
  · next hnil => exact absurd hnil hprog
  · next dest prog hq =>
    refine rank_lt rfl ?_
    have hwork : ∀ user, chanWork { q with prog, user } = q.chanWork := fun _ => rfl
    rw [hwork, hq, hu]
    simp only [progWork]
    split_ifs <;> simp only [Op.weight, UserPc.weight] <;> omega
  · next dest v prog hq =>
    refine rank_lt rfl ?_
    have hwork : (enqueue dest (.userData v) { q with prog }).chanWork ≤ q.chanWork + 5 :=
      chanWork_enqueue dest _
    rw [hq, progWork]
    simp only [enqueue, Op.weight] at hwork ⊢
    omega
  · next dest v prog hq =>
    refine rank_lt rfl ?_
    have hwork : (enqueue dest (.flowStart v) { q with prog }).chanWork ≤ q.chanWork + 5 :=
      chanWork_enqueue dest _
    rw [hq, hu, progWork]
    simp only [enqueue, chanWork, Op.weight, UserPc.weight] at hwork ⊢
    omega

theorem rank_userStep (hready : q.user = .ready → q.prog ≠ [])
    (hconnecting : ∀ conn, q.user ≠ .connecting conn) : (q.userStep p).rank < q.rank := by
  unfold userStep
  rcases hu : q.user with _ | _ | d | d | conn | ep | ep | conn | ⟨d, v⟩ <;> dsimp only
  case ready => exact rank_call hu (hready hu)
  case connecting => exact absurd hu (hconnecting conn)
  case notifyChannel =>
    refine rank_lt rfl ?_
    have hwork : chanWork { q with notifications := q.notifications ++ [ep] } ≤ q.chanWork + 4 :=
      chanWork_notify ep
    rw [hu]
    simp only [chanWork, UserPc.weight] at hwork ⊢
    omega
  case makeMeta =>
    unfold makeMeta
    split
    all_goals
      refine rank_lt_of_user rfl rfl rfl ?_
      rw [hu]
      exact Nat.lt_succ_self 16
  all_goals
    refine rank_lt_of_user rfl rfl rfl ?_
    rw [hu]
  case sendId => exact Nat.lt_succ_self 6
  all_goals exact Nat.one_pos

/-- The reliable channel waits in `epoll` and has nothing to send. -/
def Idle (q : Proc V) : Prop :=
  match q.chan with
  | .epoll => q.notifications = [] ∧ q.txQueue = []
  | _ => False

theorem Idle.eqs (h : q.Idle) : q.chan = .epoll ∧ q.notifications = [] ∧ q.txQueue = [] := by
  unfold Idle at h
  split at h
  · next hc => exact ⟨hc, h⟩
  · exact h.elim

theorem rank_chanStep (hidle : ¬q.Idle) (htx : q.chan = .tx → q.txQueue = [])
    (hok : q.chanStep = .ok q') : q'.rank < q.rank := by
  unfold chanStep at hok
  split at hok
  · next hc =>
    cases hok
    have hsome : ¬(q.notifications.length = 0 ∧ q.txQueue.length = 0) := by
      intro hzero
      unfold Idle at hidle
      rw [hc] at hidle
      exact hidle (hzero.imp List.length_eq_zero_iff.mp List.length_eq_zero_iff.mp)
    simp only [rank, chanWork, hc, ChanPc.weight, if_neg hsome]
    omega
  · next k hc =>
    cases hok
    simp only [rank, chanWork, hc, ChanPc.weight]
    omega
  · next k d hc =>
    cases hok
    simp only [rank, chanWork, newMeta, hc, ChanPc.weight]
    omega
  · next ep hc =>
    obtain ⟨q₁, hadd, hok⟩ := bind_eq_ok.mp hok
    obtain ⟨-, hadd⟩ := require_bind_eq_ok.mp hadd
    cases hadd
    cases hok
    simp only [rank, chanWork, hc, ChanPc.weight]
    omega
  · next conn hc =>
    cases hok
    simp only [rank, chanWork, hc, ChanPc.weight]
    split_ifs <;> omega
  · next hc =>
    split at hok
    · next hn =>
      cases hok
      simp only [rank, chanWork, hc, hn, ChanPc.weight, List.length_nil, if_true]
      omega
    · next ep notifications hn =>
      obtain ⟨-, hok⟩ := require_bind_eq_ok.mp hok
      cases hok
      simp only [rank, chanWork, hc, hn, ChanPc.weight, List.length_cons]
      omega
  · next hc =>
    cases hok
    simp only [rank, chanWork, hc, htx hc, ChanPc.weight, List.length_nil, and_true]
    split_ifs <;> omega

end Proc

namespace Net

variable {n n' : Net V} {q : Proc V}

def inFlight (n : Net V) (k : Sock) : ℕ :=
  (n.stream k k.client).length + (n.stream k k.server).length

def rank (S : Setup V) (n : Net V) : ℕ :=
  (∑ p ∈ S.nodes.toFinset, (n.procs p).rank) + ∑ k ∈ n.socks.toFinset, n.inFlight k

theorem rank_setProc (hp : p ∈ S.nodes) :
    (n.setProc p q).rank S + (n.procs p).rank = n.rank S + q.rank := by
  have hsum := sum_add_of_eq_off (f := fun r => (n.procs r).rank)
    (g := fun r => ((n.setProc p q).procs r).rank) (List.mem_toFinset.mpr hp)
    fun r hr => by rw [setProc_of_ne hr]
  rw [setProc_self] at hsum
  have hflight : ∀ k, (n.setProc p q).inFlight k = n.inFlight k := fun _ => rfl
  have hsocks : (n.setProc p q).socks = n.socks := rfl
  simp only [rank, hflight, hsocks]
  omega

theorem rank_setProc_lt (hp : p ∈ S.nodes) (hlt : q.rank < (n.procs p).rank) :
    (n.setProc p q).rank S < n.rank S := by
  have heq := @rank_setProc _ S p n q hp
  omega

theorem rank_setProc_eq (hp : p ∈ S.nodes) (heq : q.rank = (n.procs p).rank) :
    (n.setProc p q).rank S = n.rank S := by
  have hsum := @rank_setProc _ S p n q hp
  omega

theorem rank_setStream {k : Sock} (hk : k ∈ n.socks) (hne : k.client ≠ k.server)
    (hp : k.client = p ∨ k.server = p) (l : List (Signal V)) :
    rank S { n with stream := Function.update n.stream k (Function.update (n.stream k) p l) } +
      (n.stream k p).length = n.rank S + l.length := by
  set n' : Net V :=
    { n with stream := Function.update n.stream k (Function.update (n.stream k) p l) } with hn'
  have hother : ∀ k', k' ≠ k → n'.inFlight k' = n.inFlight k' := fun k' hk' => by
    simp only [inFlight, hn', Function.update_of_ne hk']
  have hself : n'.inFlight k + (n.stream k p).length = n.inFlight k + l.length := by
    simp only [inFlight, hn', Function.update_self]
    rcases hp with rfl | rfl
    · rw [Function.update_self, Function.update_of_ne hne.symm]
      omega
    · rw [Function.update_self, Function.update_of_ne hne]
      omega
  have hsum := sum_add_of_eq_off (List.mem_toFinset.mpr hk) hother
  have hsocks : n'.socks = n.socks := rfl
  have hprocs : n'.procs = n.procs := rfl
  rw [rank, rank, hsocks, hprocs]
  omega

theorem Inv.end_of_get {d : ℤ} {ep : Endpoint} (h : n.Inv S)
    (hget : (n.procs p).ctrlEndpoints.get? d = some ep) : ep.sock ∈ n.socks ∧
      ep.sock.client ≠ ep.sock.server ∧ (ep.sock.client = p ∨ ep.sock.server = p) ∧
      (ep.sock.client = d ∨ ep.sock.server = d) := by
  obtain ⟨hmem, hends⟩ := (h.proc p).ctrl_sock d ep hget
  have hlt := h.socks.lt _ hmem
  refine ⟨hmem, by omega, ?_⟩
  rcases hends with ⟨-, hc, hs⟩ | ⟨-, hc, hs⟩
  · exact ⟨.inl hc, .inr hs⟩
  · exact ⟨.inr hs, .inl hc⟩

theorem rank_connect {conn : Conn} (h : n.Inv S) (hp : p ∈ S.nodes)
    (hu : (n.procs p).user = .connecting conn) : (n.connect p conn).rank S < n.rank S := by
  obtain ⟨hlt, hdest, hnone⟩ := h.connecting hp hu
  have hne : conn.dest ≠ p := by omega
  set k : Sock := ⟨p, conn.dest, n.socks.length⟩
  -- nothing has been sent over a connection that was not there
  have hempty : n.inFlight k = 0 := by
    have hstream : ∀ r, n.stream k r = [] := fun r => by
      by_contra hsome
      obtain ⟨d, ep, hget, hsock⟩ := h.stream k r hsome
      have hmem : k ∈ n.socks := hsock ▸ (h.end_of_get hget).1
      have hpos : 0 < opened n.socks p conn.dest :=
        List.countP_pos_iff.mpr ⟨k, hmem, decide_eq_true ⟨rfl, rfl⟩⟩
      omega
    rw [inFlight, hstream, hstream]
    rfl
  set n₁ := n.setProc p { n.procs p with user := .sendId ⟨k, conn⟩ } with hn₁
  set n₂ := n₁.setProc conn.dest
    { n₁.procs conn.dest with backlog := (n₁.procs conn.dest).backlog ++ [k] } with hn₂
  have hsocks : (n.connect p conn).rank S = n₂.rank S := by
    have hsum : ∑ j ∈ n.socks.toFinset, n.inFlight j =
        ∑ j ∈ (n.socks ++ [k]).toFinset, n.inFlight j := by
      refine Finset.sum_subset ?_ fun j hj hnot => ?_
      · intro j hj
        rw [List.mem_toFinset] at hj ⊢
        exact List.mem_append_left _ hj
      · rw [List.mem_toFinset] at hj hnot
        rw [List.mem_singleton.mp ((List.mem_append.mp hj).resolve_left hnot)]
        exact hempty
    have hconnect : (n.connect p conn).rank S = (∑ r ∈ S.nodes.toFinset, (n₂.procs r).rank) +
        ∑ j ∈ (n.socks ++ [k]).toFinset, n.inFlight j := rfl
    rw [hconnect, ← hsum]
    rfl
  have hserver : n₂.rank S = n₁.rank S + 8 := by
    have heq : n₂.rank S + (n₁.procs conn.dest).rank = _ := rank_setProc hdest
    simp only [Proc.rank, Proc.chanWork, List.length_append, List.length_singleton] at heq
    omega
  have hclient : n₁.rank S + 9 = n.rank S := by
    have heq : n₁.rank S + (n.procs p).rank = _ := rank_setProc hp
    simp only [Proc.rank, Proc.chanWork, hu, UserPc.weight] at heq
    omega
  omega

theorem rank_userStep (h : n.Inv S) (hp : p ∈ S.nodes) (hcan : n.CanUser p) :
    (n.userStep p).rank S < n.rank S := by
  have hready : (n.procs p).user = .ready → (n.procs p).prog ≠ [] := by
    intro hu
    unfold CanUser at hcan
    rw [hu] at hcan
    exact hcan
  unfold Net.userStep
  split
  · next conn hu => exact rank_connect h hp hu
  · next ep hu =>
    exact rank_setProc_lt hp (Proc.rank_userStep hready (by rw [hu]; exact nofun))
  · next hconnecting _ => exact rank_setProc_lt hp (Proc.rank_userStep hready hconnecting)

theorem AtEpoll.chan (h : n.AtEpoll p) : (n.procs p).chan = .epoll := by
  unfold AtEpoll at h
  split at h
  · assumption
  · exact h.elim

theorem rank_accept (hp : p ∈ S.nodes) (hc : n.AtEpoll p) (hb : (n.procs p).backlog ≠ []) :
    (n.accept p).rank S < n.rank S := by
  unfold Net.accept
  split
  · next hnil => exact absurd hnil hb
  · next k backlog hcons =>
    refine rank_setProc_lt hp ?_
    simp only [Proc.rank, Proc.chanWork, hc.chan, hcons, ChanPc.weight, List.length_cons]
    omega

theorem rank_recv {src : ℤ} (h : n.Inv S) (hp : p ∈ S.nodes) (hcan : n.CanRecv p src) :
    (n.recv p src).rank S < n.rank S := by
  unfold CanRecv at hcan
  unfold Net.recv
  split
  · next hnone =>
    rw [hnone] at hcan
    exact hcan.elim
  · next ep hget =>
    rw [hget] at hcan
    split
    · next hnil => exact absurd hnil hcan
    · next x rest hs =>
      obtain ⟨hmem, hne, -, hsrc⟩ := h.end_of_get hget
      have hstream := @rank_setStream _ S src n ep.sock hmem hne hsrc rest
      rw [hs, List.length_cons] at hstream
      set n₁ : Net V := { n with
        stream := Function.update n.stream ep.sock (Function.update (n.stream ep.sock) src rest) }
      have hproc : Net.rank S (n₁.setProc p
          { n.procs p with received := (n.procs p).received ++ [(src, x)] }) = n₁.rank S :=
        rank_setProc_eq hp rfl
      exact hproc.trans_lt (by omega)

theorem rank_route {d : ℤ} (h : n.Inv S) (hp : p ∈ S.nodes) (x : Signal V) :
    (n.route p d x).rank S ≤ n.rank S + 1 := by
  unfold Net.route
  split
  · have hdrop : Proc.rank { n.procs p with dropped := (n.procs p).dropped ++ [(d, x)] } =
        (n.procs p).rank := rfl
    exact (rank_setProc_eq hp hdrop).trans_le (Nat.le_succ _)
  · next ep hget =>
    obtain ⟨hmem, hne, hend, -⟩ := h.end_of_get hget
    have hstream := @rank_setStream _ S p n ep.sock hmem hne hend (n.stream ep.sock p ++ [x])
    rw [List.length_append, List.length_singleton] at hstream
    omega

theorem rank_chanStep (h : n.Inv S) (hp : p ∈ S.nodes) (hidle : ¬(n.procs p).Idle)
    (hok : n.chanStep p = .ok n') : n'.rank S < n.rank S := by
  unfold Net.chanStep at hok
  split at hok
  · next d x txQueue hc htx =>
    cases hok
    have hinv : (n.setProc p { n.procs p with txQueue }).Inv S :=
      h.setProc { h.proc p with } (fun _ hu => hu) fun _ _ hget => hget
    have hroute := rank_route (d := d) hinv hp x
    have hrank : Proc.rank { n.procs p with txQueue } + 2 = (n.procs p).rank := by
      simp only [Proc.rank, Proc.chanWork, hc, htx, ChanPc.weight, List.length_cons]
      omega
    have heq := @rank_setProc _ S p n { n.procs p with txQueue } hp
    omega
  · next hnot =>
    obtain ⟨q, hq, hok⟩ := bind_eq_ok.mp hok
    cases hok
    refine rank_setProc_lt hp (Proc.rank_chanStep hidle (fun hc => ?_) hq)
    rcases htx : (n.procs p).txQueue with _ | ⟨⟨d, x⟩, txQueue⟩
    · rfl
    · exact (hnot d x txQueue hc htx).elim

/-! ## Runs -/

def Action.Connects : Action → Prop
  | .prio _ => False
  | _ => True

/-- A step with which something is done: the reliable channel does not return from `epoll` without
an event. -/
def Useful (nodes : List ℤ) (n : Net V) : Action → Prop
  | .chan p => p ∈ nodes ∧ n.CanChan p ∧ ¬(n.procs p).Idle
  | a => n.Allowed nodes a

theorem lowers_rank (S : Setup V) :
    (machine S).Lowers (Useful S.nodes) Action.Connects (Inv S) (rank S) := by
  intro n a h hkind ha
  cases a with
  | user p => exact ⟨_, rfl, h.userStep ha.1, rank_userStep h ha.1 ha.2⟩
  | accept p => exact ⟨_, rfl, h.accept ha.2.1, rank_accept ha.1 ha.2.1 ha.2.2⟩
  | recv p src => exact ⟨_, rfl, h.recv src, rank_recv h ha.1 ha.2.2⟩
  | chan p =>
    obtain ⟨n', hok, h'⟩ := h.chanStep p
    exact ⟨n', hok, h', rank_chanStep h ha.1 ha.2.2 hok⟩
  | prio p => exact hkind.elim

/-! ## When nothing is left to do -/

/-- All calls have returned, all signals have been received, and every two processes have the two
ends of one connection. -/
structure Complete (S : Setup V) (n : Net V) : Prop where
  done : ∀ p ∈ S.nodes, (n.procs p).user = .ready ∧ (n.procs p).prog = []
  idle : ∀ p ∈ S.nodes, (n.procs p).Idle ∧ (n.procs p).backlog = []
  linked : ∀ c ∈ S.nodes, ∀ s ∈ S.nodes, c < s → ∃ k conn conn',
    (n.procs c).ctrlEndpoints.get? s = some ⟨k, conn⟩ ∧
    (n.procs s).ctrlEndpoints.get? c = some ⟨k, conn'⟩ ∧
    n.stream k c = [] ∧ n.stream k s = []

theorem atEpoll_of_idle (h : (n.procs p).Idle) : n.AtEpoll p := by
  unfold AtEpoll
  rw [h.eqs.1]
  trivial

section Stuck

variable (h : n.Inv S) (hstuck : Machine.Stuck (Useful S.nodes) Action.Connects n)
include h hstuck

theorem user_of_stuck (hp : p ∈ S.nodes) :
    (n.procs p).user = .ready ∧ (n.procs p).prog = [] ∨
      ∃ d, (n.procs p).user = .waiting d ∧ (n.procs p).idConn.get? d = none := by
  have hcan : ∀ r ∈ S.nodes, ¬n.CanUser r := fun r hr hcan =>
    hstuck (.user r) trivial ⟨hr, hcan⟩
  have hlisten : ∀ r ∈ S.nodes, (n.procs r).listening = true := fun r hr => by
    refine (h.proc r).listening.resolve_right fun hstart => hcan r hr ?_
    unfold CanUser
    rw [hstart]
    trivial
  have hpcan := hcan p hp
  unfold CanUser at hpcan
  split at hpcan
  · next hu => exact .inl ⟨hu, not_not.mp hpcan⟩
  · next d hu =>
    exact .inr ⟨d, hu, Option.not_isSome_iff_eq_none.mp hpcan⟩
  · next conn hu => exact absurd (hlisten _ (h.connecting hp hu).2.1) hpcan
  · exact absurd trivial hpcan

theorem idle_of_stuck (hp : p ∈ S.nodes) : (n.procs p).Idle ∧ (n.procs p).backlog = [] := by
  have hidle : (n.procs p).Idle := by
    by_contra hbusy
    have hblocked : ¬n.CanChan p := fun hcan => hstuck (.chan p) trivial ⟨hp, hcan, hbusy⟩
    unfold CanChan at hblocked
    split at hblocked
    · next k hc =>
      -- the client is about to send its id
      obtain ⟨hmem, -⟩ := (h.proc p).chan_sock k (by rw [hc]; rfl)
      obtain ⟨conn, hu⟩ := h.hello k hmem (Bool.eq_false_iff.mpr hblocked)
      rcases user_of_stuck h hstuck (h.nodes k hmem).1 with ⟨hready, -⟩ | ⟨d, hwait, -⟩
      · rw [hu] at hready
        cases hready
      · rw [hu] at hwait
        cases hwait
    · exact hblocked trivial
  refine ⟨hidle, ?_⟩
  by_contra hsome
  exact hstuck (.accept p) trivial ⟨hp, atEpoll_of_idle hidle, hsome⟩

omit hstuck in
theorem opened_of_done {c s : ℤ} (hc : c ∈ S.nodes) (hs : s ∈ S.nodes) (hlt : c < s)
    (hu : (n.procs c).user = .ready) (hprog : (n.procs c).prog = []) :
    opened n.socks c s = 1 := by
  have hcount := (h.proc c).toConnect hc s hlt
  rw [if_pos hs, Proc.toConnect, hu, hprog, List.countP_nil] at hcount
  simpa [UserPc.early] using hcount

theorem reg_server_of_stuck {c s : ℤ} (hs : s ∈ S.nodes) (hlt : c < s)
    (hopened : opened n.socks c s = 1) :
    ∃ ep, (n.procs s).ctrlEndpoints.get? c = some ep := by
  obtain ⟨hidle, hbacklog⟩ := idle_of_stuck h hstuck hs
  have hcame := (h.proc s).came c
  rw [hopened, if_pos hlt, Proc.arriving, hbacklog, hidle.eqs.1, List.countP_nil] at hcame
  simp only [ChanPc.accepts, Bool.toNat_false, Nat.zero_add, Proc.reg] at hcame
  exact Option.isSome_iff_exists.mp (Bool.toNat_eq_one.mp hcame)

theorem reg_client_of_stuck {c s : ℤ} (hc : c ∈ S.nodes) (hlt : c < s)
    (hu : (n.procs c).user = .ready) (hopened : opened n.socks c s = 1) :
    ∃ ep, (n.procs c).ctrlEndpoints.get? s = some ep := by
  have hmade := (h.proc c).made s
  rw [hopened, if_pos hlt, hu, Proc.notified, (idle_of_stuck h hstuck hc).1.eqs.2.1,
    List.countP_nil] at hmade
  simp only [UserPc.late, Bool.toNat_false, Nat.zero_add, Proc.reg] at hmade
  exact Option.isSome_iff_exists.mp (Bool.toNat_eq_one.mp hmade)

/-- Nobody waits for a connection: the one with the smallest id would wait for a process that has
made all of its own. -/
theorem done_of_stuck (hp : p ∈ S.nodes) : (n.procs p).user = .ready ∧ (n.procs p).prog = [] := by
  classical
  by_contra hnot
  let busy := S.nodes.toFinset.filter fun r =>
    ¬((n.procs r).user = .ready ∧ (n.procs r).prog = [])
  have hbusy : busy.Nonempty := ⟨p, Finset.mem_filter.mpr ⟨List.mem_toFinset.mpr hp, hnot⟩⟩
  obtain ⟨r, hr, hmin⟩ := busy.exists_min_image id hbusy
  obtain ⟨hrnode, hrnot⟩ := Finset.mem_filter.mp hr
  rw [List.mem_toFinset] at hrnode
  obtain ⟨d, hwait, hnone⟩ := (user_of_stuck h hstuck hrnode).resolve_left hrnot
  obtain ⟨hlt, hd⟩ := (h.proc r).waits hrnode d hwait
  have hdone : (n.procs d).user = .ready ∧ (n.procs d).prog = [] := by
    by_contra hdnot
    have hle := hmin d (Finset.mem_filter.mpr ⟨List.mem_toFinset.mpr hd, hdnot⟩)
    exact absurd hlt (not_lt.mpr hle)
  obtain ⟨ep, hget⟩ := reg_server_of_stuck h hstuck hrnode hlt
    (opened_of_done h hd hrnode hlt hdone.1 hdone.2)
  rw [(h.proc r).ctrl_conn d ep hget] at hnone
  cases hnone

theorem complete_of_stuck : n.Complete S where
  done p hp := done_of_stuck h hstuck hp
  idle p hp := idle_of_stuck h hstuck hp
  linked c hc s hs hlt := by
    obtain ⟨hu, hprog⟩ := done_of_stuck h hstuck hc
    have hopened := opened_of_done h hc hs hlt hu hprog
    obtain ⟨⟨k, conn⟩, hget⟩ := reg_client_of_stuck h hstuck hc hlt hu hopened
    obtain ⟨⟨k', conn'⟩, hget'⟩ := reg_server_of_stuck h hstuck hs hlt hopened
    obtain ⟨hmem, hends⟩ := (h.proc c).ctrl_sock s _ hget
    obtain ⟨hmem', hends'⟩ := (h.proc s).ctrl_sock c _ hget'
    obtain ⟨-, hkc, hks⟩ := hends.resolve_right fun hr => by omega
    obtain ⟨-, hkc', hks'⟩ := hends'.resolve_left fun hl => by omega
    obtain rfl : k = k' :=
      h.eq_of_opened hmem hmem' (hkc.trans hkc'.symm) (hks.trans hks'.symm)
    have hepoll : ∀ r ∈ S.nodes, n.AtEpoll r := fun r hr =>
      atEpoll_of_idle (idle_of_stuck h hstuck hr).1
    refine ⟨k, conn, conn', hget, hget', ?_, ?_⟩
    · by_contra hsome
      refine hstuck (.recv s c) trivial ⟨hs, hepoll s hs, ?_⟩
      unfold CanRecv
      rw [hget']
      exact hsome
    · by_contra hsome
      refine hstuck (.recv c s) trivial ⟨hc, hepoll c hc, ?_⟩
      unfold CanRecv
      rw [hget]
      exact hsome

end Stuck

instance (q : Proc V) : Decidable q.Idle := by
  unfold Proc.Idle
  split <;> infer_instance

instance (nodes : List ℤ) : DecidablePred (n.Useful nodes)
  | .user p => inferInstanceAs (Decidable (n.Allowed nodes (.user p)))
  | .accept p => inferInstanceAs (Decidable (n.Allowed nodes (.accept p)))
  | .recv p src => inferInstanceAs (Decidable (n.Allowed nodes (.recv p src)))
  | .chan p => inferInstanceAs (Decidable (p ∈ nodes ∧ n.CanChan p ∧ ¬(n.procs p).Idle))
  | .prio p => inferInstanceAs (Decidable (n.Allowed nodes (.prio p)))

instance : DecidablePred Action.Connects
  | .prio _ => inferInstanceAs (Decidable False)
  | .user _ | .accept _ | .recv _ _ | .chan _ => inferInstanceAs (Decidable True)

theorem rank_prioStep (hp : p ∈ S.nodes) (hok : n.prioStep p = .ok n') :
    n'.rank S = n.rank S := by
  obtain ⟨q, hq, hok⟩ := bind_eq_ok.mp hok
  cases hok
  refine rank_setProc_eq hp ?_
  rcases Proc.prioStep_cases hq with ⟨_, rfl⟩ | ⟨d, v, srQueue, -, -, hq⟩ | ⟨_, _, -, rfl⟩
  · rfl
  · unfold Proc.sendRequest at hq
    dsimp only at hq
    split at hq
    · cases hq
    · cases hq
      rfl
  · rfl

theorem nodup_three : ([2, 0, 1] : List ℤ).Nodup := by decide

def threeNodes : Setup ℕ := .startup [2, 0, 1] nodup_three (fun _ => []) nofun

end Net

end Mlt.Mesh
