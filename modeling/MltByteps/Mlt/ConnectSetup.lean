import MltByteps.Mlt.MeshInv

/-! Runs of the mesh: no step fails, and connections are never mixed up. -/

namespace Mlt.Mesh

variable {V : Type} {S : Setup V} {socks : List Sock} {p : ℤ} {k : Sock}

/-! ## A connection is made -/

theorem opened_append (c s : ℤ) : opened (socks ++ [k]) c s =
    opened socks c s + if k.client = c ∧ k.server = s then 1 else 0 := by
  rw [opened, List.countP_append, List.countP_singleton, opened]
  simp

namespace Proc

variable {q : Proc V}

theorem Inv.other (h : q.Inv S socks p) (hclient : k.client ≠ p) (hserver : k.server ≠ p) :
    q.Inv S (socks ++ [k]) p := by
  have hfrom : ∀ d, opened (socks ++ [k]) p d = opened socks p d := fun d => by
    rw [opened_append, if_neg fun hk => hclient hk.1, Nat.add_zero]
  have hto : ∀ c, opened (socks ++ [k]) c p = opened socks c p := fun c => by
    rw [opened_append, if_neg fun hk => hserver hk.2, Nat.add_zero]
  have hmem : ∀ {k'}, k' ∈ socks → k' ∈ socks ++ [k] := List.mem_append_left _
  exact { h with
    toConnect := fun hp d hd => hfrom d ▸ h.toConnect hp d hd
    made := fun d => hfrom d ▸ h.made d
    came := fun c => hto c ▸ h.came c
    user_sock := fun ep hep => (h.user_sock ep hep).imp_left hmem
    ep_sock := fun ep hep => (h.ep_sock ep hep).imp_left hmem
    chan_sock := fun k' hk' => (h.chan_sock k' hk').imp_left hmem
    backlog_sock := fun k' hk' => (h.backlog_sock k' hk').imp_left hmem
    ctrl_sock := fun d ep hep => (h.ctrl_sock d ep hep).imp_left hmem }

theorem Inv.connected {conn : Conn} (h : q.Inv S socks p) (hu : q.user = .connecting conn)
    (hclient : k.client = p) (hserver : k.server = conn.dest) :
    Inv S (socks ++ [k]) p { q with user := .sendId ⟨k, conn⟩ } := by
  have hlt : p < conn.dest := h.early _ (by rw [hu]; simp [UserPc.early])
  have hfrom : ∀ d, opened (socks ++ [k]) p d =
      opened socks p d + if conn.dest = d then 1 else 0 := fun d => by
    rw [opened_append, hclient, hserver]
    simp only [true_and]
  have hto : ∀ c, opened (socks ++ [k]) c p = opened socks c p := fun c => by
    rw [opened_append, if_neg fun hk => by omega, Nat.add_zero]
  have hmem : ∀ {k'}, k' ∈ socks → k' ∈ socks ++ [k] := List.mem_append_left _
  exact { h with
    listening := .inl (h.listening_of_ne fun hstart => by
      rw [hu] at hstart
      cases hstart)
    waits := fun _ _ hwait => by cases hwait
    toConnect := fun hp d hd => by
      have hcount := h.toConnect hp d hd
      rw [Proc.toConnect, hu] at hcount
      rw [hfrom, ← hcount, Proc.toConnect]
      by_cases hd' : conn.dest = d <;> simp [UserPc.early, hd']
      omega
    early := fun _ hearly => absurd hearly Bool.false_ne_true
    made := fun d => by
      have hmade := h.made d
      rw [hu] at hmade
      rw [hfrom, ← hmade]
      by_cases hd' : conn.dest = d <;> simp [UserPc.late, hd', notified, reg]
      omega
    came := fun c => hto c ▸ h.came c
    told := fun d => by
      have htold := h.told d
      rw [Proc.told, hu] at htold
      exact htold
    user_conn := fun c hc => by
      cases hc
      exact h.user_conn conn (by rw [hu]; rfl)
    user_sock := fun ep hep => by
      cases hep
      exact ⟨List.mem_append_right _ (List.mem_singleton_self k), hclient, hserver⟩
    ep_sock := fun ep hep => (h.ep_sock ep hep).imp_left hmem
    chan_sock := fun k' hk' => (h.chan_sock k' hk').imp_left hmem
    backlog_sock := fun k' hk' => (h.backlog_sock k' hk').imp_left hmem
    ctrl_sock := fun d ep hep => (h.ctrl_sock d ep hep).imp_left hmem }

theorem Inv.arrived (h : q.Inv S socks p) (hclient : k.client ≠ p) (hserver : k.server = p) :
    Inv S (socks ++ [k]) p { q with backlog := q.backlog ++ [k] } := by
  have hfrom : ∀ d, opened (socks ++ [k]) p d = opened socks p d := fun d => by
    rw [opened_append, if_neg fun hk => hclient hk.1, Nat.add_zero]
  have hto : ∀ c, opened (socks ++ [k]) c p =
      opened socks c p + if k.client = c then 1 else 0 := fun c => by
    rw [opened_append, hserver]
    simp only [and_true]
  have hmem : ∀ {k'}, k' ∈ socks → k' ∈ socks ++ [k] := List.mem_append_left _
  exact { h with
    toConnect := fun hp d hd => hfrom d ▸ h.toConnect hp d hd
    made := fun d => hfrom d ▸ h.made d
    came := fun c => by
      have hcame := h.came c
      rw [Proc.arriving] at hcame
      rw [hto, ← hcame, Proc.arriving, countP_append_singleton, reg, reg]
      by_cases hk : k.client = c <;> simp [hk]
      omega
    user_sock := fun ep hep => (h.user_sock ep hep).imp_left hmem
    ep_sock := fun ep hep => (h.ep_sock ep hep).imp_left hmem
    chan_sock := fun k' hk' => (h.chan_sock k' hk').imp_left hmem
    backlog_sock := fun k' hk' => by
      rcases List.mem_append.mp hk' with hk' | hk'
      · exact (h.backlog_sock k' hk').imp_left hmem
      · rw [List.mem_singleton.mp hk']
        exact ⟨List.mem_append_right _ (List.mem_singleton_self k), hserver⟩
    ctrl_sock := fun d ep hep => (h.ctrl_sock d ep hep).imp_left hmem }

theorem userStep_ctrlEndpoints : (q.userStep p).ctrlEndpoints = q.ctrlEndpoints := by
  unfold userStep
  split
  case h_2 =>
    unfold call
    split <;> rfl
  case h_4 =>
    unfold makeMeta
    split <;> rfl
  all_goals rfl

theorem prioStep_frame {q' : Proc V} (hok : q.prioStep = .ok q') :
    q'.user = q.user ∧ q'.ctrlEndpoints = q.ctrlEndpoints := by
  rcases prioStep_cases hok with ⟨_, rfl⟩ | ⟨d, v, srQueue, -, -, hok⟩ | ⟨_, _, -, rfl⟩
  · exact ⟨rfl, rfl⟩
  · unfold sendRequest at hok
    dsimp only at hok
    split at hok
    · cases hok
    · cases hok
      exact ⟨rfl, rfl⟩
  · exact ⟨rfl, rfl⟩

end Proc

/-! ## Steps -/

namespace Net

variable {n : Net V} {q : Proc V}

/-- What holds of the mesh: of each process, that a client whose id has not been sent is about to
send it, and that only registered endpoints have sent anything. -/
structure Inv (S : Setup V) (n : Net V) : Prop where
  socks : SocksOk n.socks
  nodes : ∀ k ∈ n.socks, k.client ∈ S.nodes ∧ k.server ∈ S.nodes
  proc : ∀ p, (n.procs p).Inv S n.socks p
  hello : ∀ k ∈ n.socks, n.hello k = false → ∃ conn, (n.procs k.client).user = .sendId ⟨k, conn⟩
  stream : ∀ k p, n.stream k p ≠ [] →
    ∃ d ep, (n.procs p).ctrlEndpoints.get? d = some ep ∧ ep.sock = k

theorem setProc_self : (n.setProc p q).procs p = q := Function.update_self ..

theorem setProc_of_ne {r : ℤ} (h : r ≠ p) : (n.setProc p q).procs r = n.procs r :=
  Function.update_of_ne h ..

theorem setProc_proj {β : Type} (f : Proc V → β) (hq : f q = f (n.procs p)) (r : ℤ) :
    f ((n.setProc p q).procs r) = f (n.procs r) := by
  by_cases hr : r = p
  · subst hr
    rw [setProc_self, hq]
  · rw [setProc_of_ne hr]

theorem Inv.setProc (h : n.Inv S) (hq : q.Inv S n.socks p)
    (huser : ∀ ep, (n.procs p).user = .sendId ep → q.user = .sendId ep)
    (hctrl : ∀ d ep, (n.procs p).ctrlEndpoints.get? d = some ep →
      q.ctrlEndpoints.get? d = some ep) : (n.setProc p q).Inv S where
  socks := h.socks
  nodes := h.nodes
  proc r := by
    by_cases hr : r = p
    · subst hr
      rw [setProc_self]
      exact hq
    · rw [setProc_of_ne hr]
      exact h.proc r
  hello k hk hhello := by
    obtain ⟨conn, hconn⟩ := h.hello k hk hhello
    by_cases hr : k.client = p
    · rw [hr, setProc_self]
      exact ⟨conn, huser _ (hr ▸ hconn)⟩
    · rw [setProc_of_ne hr]
      exact ⟨conn, hconn⟩
  stream k r hk := by
    obtain ⟨d, ep, hget, hsock⟩ := h.stream k r hk
    by_cases hr : r = p
    · subst hr
      rw [setProc_self]
      exact ⟨d, ep, hctrl d ep hget, hsock⟩
    · rw [setProc_of_ne hr]
      exact ⟨d, ep, hget, hsock⟩

theorem Inv.setStream {d : ℤ} {ep : Endpoint} (h : n.Inv S)
    (hget : (n.procs p).ctrlEndpoints.get? d = some ep ∨ n.stream ep.sock p ≠ [])
    (l : List (Signal V)) : Inv S { n with
      stream := Function.update n.stream ep.sock (Function.update (n.stream ep.sock) p l) } := by
  refine ⟨h.socks, h.nodes, h.proc, h.hello, fun k r hk => ?_⟩
  have hold : n.stream k r ≠ [] ∨ k = ep.sock ∧ r = p := by
    by_cases hks : k = ep.sock
    · subst hks
      by_cases hrp : r = p
      · exact .inr ⟨rfl, hrp⟩
      · dsimp only at hk
        rw [Function.update_self, Function.update_of_ne hrp] at hk
        exact .inl hk
    · dsimp only at hk
      rw [Function.update_of_ne hks] at hk
      exact .inl hk
  rcases hold with hold | ⟨rfl, rfl⟩
  · exact h.stream k r hold
  · rcases hget with hget | hne
    · exact ⟨d, ep, hget, rfl⟩
    · exact h.stream _ _ hne

theorem Inv.sendId {ep : Endpoint} (h : n.Inv S) (hu : (n.procs p).user = .sendId ep) :
    Inv S { n.setProc p { n.procs p with user := .notifyChannel ep } with
      hello := Function.update n.hello ep.sock true } where
  socks := h.socks
  nodes := h.nodes
  proc r := by
    by_cases hr : r = p
    · subst hr
      dsimp only
      rw [setProc_self]
      exact (h.proc r).sendId hu
    · dsimp only
      rw [setProc_of_ne hr]
      exact h.proc r
  hello k hk hhello := by
    have hne : k ≠ ep.sock := by
      rintro rfl
      dsimp only at hhello
      rw [Function.update_self] at hhello
      cases hhello
    dsimp only at hhello ⊢
    rw [Function.update_of_ne hne] at hhello
    obtain ⟨conn, hconn⟩ := h.hello k hk hhello
    have hr : k.client ≠ p := by
      rintro rfl
      rw [hu] at hconn
      cases hconn
      exact hne rfl
    rw [setProc_of_ne hr]
    exact ⟨conn, hconn⟩
  stream k r hk := by
    obtain ⟨d, ep', hget, hsock⟩ := h.stream k r hk
    by_cases hr : r = p
    · subst hr
      dsimp only
      rw [setProc_self]
      exact ⟨d, ep', hget, hsock⟩
    · dsimp only
      rw [setProc_of_ne hr]
      exact ⟨d, ep', hget, hsock⟩

theorem connect_procs_client {conn : Conn} (h : p ≠ conn.dest) : (n.connect p conn).procs p =
    { n.procs p with user := .sendId ⟨⟨p, conn.dest, n.socks.length⟩, conn⟩ } := by
  unfold connect
  dsimp only
  rw [setProc_of_ne h, setProc_self]

theorem connect_procs_server {conn : Conn} (h : p ≠ conn.dest) :
    (n.connect p conn).procs conn.dest = { n.procs conn.dest with
      backlog := (n.procs conn.dest).backlog ++ [⟨p, conn.dest, n.socks.length⟩] } := by
  unfold connect
  dsimp only
  rw [setProc_self, setProc_of_ne h.symm]

theorem connect_procs_other {conn : Conn} {r : ℤ} (hp : r ≠ p) (hd : r ≠ conn.dest) :
    (n.connect p conn).procs r = n.procs r := by
  unfold connect
  dsimp only
  rw [setProc_of_ne hd, setProc_of_ne hp]

theorem connect_ctrlEndpoints {conn : Conn} (r : ℤ) :
    ((n.connect p conn).procs r).ctrlEndpoints = (n.procs r).ctrlEndpoints := by
  unfold connect
  dsimp only
  by_cases hrd : r = conn.dest
  · subst hrd
    rw [setProc_self]
    by_cases hrp : conn.dest = p
    · rw [hrp, setProc_self]
    · rw [setProc_of_ne hrp]
  · rw [setProc_of_ne hrd]
    by_cases hrp : r = p
    · rw [hrp, setProc_self]
    · rw [setProc_of_ne hrp]

theorem Inv.connecting {conn : Conn} (h : n.Inv S) (hp : p ∈ S.nodes)
    (hu : (n.procs p).user = .connecting conn) :
    p < conn.dest ∧ conn.dest ∈ S.nodes ∧ opened n.socks p conn.dest = 0 := by
  have hlt : p < conn.dest := (h.proc p).early _ (by rw [hu]; simp [UserPc.early])
  have hcount := (h.proc p).toConnect hp _ hlt
  rw [Proc.toConnect, hu] at hcount
  simp only [UserPc.early, decide_true, Bool.toNat_true] at hcount
  by_cases hd : conn.dest ∈ S.nodes
  · rw [if_pos hd] at hcount
    exact ⟨hlt, hd, by omega⟩
  · rw [if_neg hd] at hcount
    omega

theorem Inv.connect {conn : Conn} (h : n.Inv S) (hp : p ∈ S.nodes)
    (hu : (n.procs p).user = .connecting conn) : (n.connect p conn).Inv S := by
  obtain ⟨hlt, hdest, hnone⟩ := h.connecting hp hu
  have hne : p ≠ conn.dest := by omega
  refine ⟨⟨fun k hk => ?_, fun c s => ?_⟩, fun k hk => ?_, fun r => ?_, fun k hk hhello => ?_,
    fun k r hk => ?_⟩
  · rcases List.mem_append.mp hk with hk | hk
    · exact h.socks.lt k hk
    · rw [List.mem_singleton.mp hk]
      exact hlt
  · have hone := h.socks.once c s
    have happ := @opened_append n.socks ⟨p, conn.dest, n.socks.length⟩ c s
    have hgoal : opened (n.connect p conn).socks c s = _ := happ
    rw [hgoal]
    split_ifs with hcs
    · obtain ⟨rfl, rfl⟩ : p = c ∧ conn.dest = s := hcs
      omega
    · omega
  · rcases List.mem_append.mp hk with hk | hk
    · exact h.nodes k hk
    · rw [List.mem_singleton.mp hk]
      exact ⟨hp, hdest⟩
  · by_cases hrp : r = p
    · subst hrp
      rw [connect_procs_client hne]
      exact (h.proc r).connected hu rfl rfl
    · by_cases hrd : r = conn.dest
      · subst hrd
        rw [connect_procs_server hne]
        exact (h.proc conn.dest).arrived hne rfl
      · rw [connect_procs_other hrp hrd]
        exact (h.proc r).other (fun hk => hrp hk.symm) fun hk => hrd hk.symm
  · rcases List.mem_append.mp hk with hk | hk
    · obtain ⟨conn', hconn⟩ := h.hello k hk hhello
      have hkp : k.client ≠ p := by
        rintro hkp
        rw [hkp, hu] at hconn
        cases hconn
      by_cases hkd : k.client = conn.dest
      · refine ⟨conn', ?_⟩
        rw [hkd, connect_procs_server hne]
        exact hkd ▸ hconn
      · rw [connect_procs_other hkp hkd]
        exact ⟨conn', hconn⟩
    · rw [List.mem_singleton.mp hk]
      exact ⟨conn, by rw [connect_procs_client hne]⟩
  · rw [connect_ctrlEndpoints]
    exact h.stream k r hk

theorem Inv.userStep (h : n.Inv S) (hp : p ∈ S.nodes) : (n.userStep p).Inv S := by
  have hq := h.proc p
  unfold Net.userStep
  rcases hu : (n.procs p).user with _ | _ | d | d | conn | ep | ep | conn | ⟨d, v⟩ <;> dsimp only
  case connecting => exact h.connect hp hu
  case sendId =>
    unfold Proc.userStep
    rw [hu]
    exact h.sendId hu
  all_goals
    refine h.setProc ?_ (by rw [hu]; exact nofun) fun d ep hget => by
      rw [Proc.userStep_ctrlEndpoints]
      exact hget
    unfold Proc.userStep
    rw [hu]
    dsimp only
  case start => exact hq.start hu
  case ready => exact hq.call hp hu
  case waiting => exact hq.waiting hu
  case makeMeta => exact hq.makeMeta hu
  case notifyChannel => exact hq.notifyChannel hu
  case notifyPriority => exact hq.userNotifyPriority hu
  case enqueueSend => exact hq.enqueueSend hu

theorem Inv.accept (h : n.Inv S) (hc : n.AtEpoll p) : (n.accept p).Inv S := by
  have hchan : (n.procs p).chan = .epoll := by
    unfold AtEpoll at hc
    split at hc
    · assumption
    · exact hc.elim
  unfold Net.accept
  split
  · exact h
  · next k backlog hb =>
    exact h.setProc ((h.proc p).accept hchan hb) (fun _ hu => hu) fun _ _ hget => hget

theorem Inv.recv (h : n.Inv S) (src : ℤ) : (n.recv p src).Inv S := by
  unfold Net.recv
  split
  · exact h
  · next ep _ =>
    split
    · exact h
    · next x rest hs =>
      have hq : Proc.Inv S n.socks p
          { n.procs p with received := (n.procs p).received ++ [(src, x)] } := { h.proc p with }
      have hne : n.stream ep.sock src ≠ [] := by rw [hs]; exact List.cons_ne_nil _ _
      have h' := h.setProc hq (fun _ hu => hu) fun _ _ hget => hget
      exact h'.setStream (d := src) (.inr hne) rest

theorem Inv.route (h : n.Inv S) (d : ℤ) (x : Signal V) : (n.route p d x).Inv S := by
  unfold Net.route
  split
  · have hq : Proc.Inv S n.socks p
        { n.procs p with dropped := (n.procs p).dropped ++ [(d, x)] } := { h.proc p with }
    exact h.setProc hq (fun _ hu => hu) fun _ _ hget => hget
  · next ep hget => exact h.setStream (.inl hget) _

end Net

namespace Proc

variable {q : Proc V}

theorem addEndpoint_eq {ep : Endpoint} (h : q.ctrlEndpoints.get? ep.conn.dest = none) :
    q.addEndpoint ep = .ok { q with ctrlEndpoints := q.ctrlEndpoints.set ep.conn.dest ep } :=
  require_bind _ h

theorem get?_set_of_none {d : Dict ℤ Endpoint} {c : ℤ} {ep : Endpoint} (h : d.get? c = none)
    (c' : ℤ) (ep' : Endpoint) (hget : d.get? c' = some ep') :
    (d.set c ep).get? c' = some ep' := by
  rw [Dict.get?_set, if_neg, hget]
  rintro rfl
  rw [h] at hget
  cases hget

theorem Inv.chanStep (h : q.Inv S socks p) (hsocks : SocksOk socks) :
    ∃ q', q.chanStep = .ok q' ∧ q'.Inv S socks p ∧ q'.user = q.user ∧
      ∀ d ep, q.ctrlEndpoints.get? d = some ep → q'.ctrlEndpoints.get? d = some ep := by
  unfold Proc.chanStep
  split
  · next hc => exact ⟨_, rfl, h.moveChan (.inl hc) (.inr (.inl rfl)), rfl, fun _ _ hget => hget⟩
  · next k hc => exact ⟨_, rfl, h.recvId hc, rfl, fun _ _ hget => hget⟩
  · next k d hc => exact ⟨_, rfl, h.newMeta hsocks hc, rfl, fun _ _ hget => hget⟩
  · next ep hc =>
    obtain ⟨hnone, h'⟩ := h.addAccepted hsocks hc
    rw [addEndpoint_eq hnone]
    exact ⟨_, rfl, h', rfl, get?_set_of_none hnone⟩
  · next conn hc => exact ⟨_, rfl, h.chanNotifyPriority hc, rfl, fun _ _ hget => hget⟩
  · next hc =>
    split
    · exact ⟨_, rfl, h.moveChan (.inr (.inl hc)) (.inr (.inr rfl)), rfl, fun _ _ hget => hget⟩
    · next ep notifications hn =>
      obtain ⟨hnone, h'⟩ := h.addConnected hsocks hn
      rw [addEndpoint_eq (q := { q with notifications }) hnone]
      exact ⟨_, rfl, h', rfl, get?_set_of_none hnone⟩
  · next hc => exact ⟨_, rfl, h.moveChan (.inr (.inr hc)) (.inl rfl), rfl, fun _ _ hget => hget⟩

end Proc

namespace Net

variable {n : Net V}

theorem Inv.chanStep (h : n.Inv S) (p : ℤ) : ∃ n', n.chanStep p = .ok n' ∧ n'.Inv S := by
  unfold Net.chanStep
  split
  · next d x txQueue hc htx =>
    refine ⟨_, rfl, Inv.route ?_ d x⟩
    exact h.setProc (q := { n.procs p with txQueue }) { h.proc p with } (fun _ hu => hu)
      fun _ _ hget => hget
  · obtain ⟨q, hok, hq, huser, hctrl⟩ := (h.proc p).chanStep h.socks
    rw [hok]
    exact ⟨_, rfl, h.setProc hq (fun ep hu => huser.trans hu) hctrl⟩

theorem Inv.prioStep {n' : Net V} (h : n.Inv S) (hok : n.prioStep p = .ok n') : n'.Inv S := by
  obtain ⟨q, hq, hok⟩ := bind_eq_ok.mp hok
  cases hok
  obtain ⟨huser, hctrl⟩ := Proc.prioStep_frame hq
  exact h.setProc ((h.proc p).prioStep hq) (fun ep hu => huser.trans hu) fun d ep hget =>
    hctrl ▸ hget

theorem inv_init (S : Setup V) : (init S.prog).Inv S where
  socks := ⟨nofun, fun _ _ => Nat.zero_le _⟩
  nodes := nofun
  proc p := by
    refine {
      listening := .inr rfl
      adds := fun hp d => Nat.le_of_eq (S.once p hp d)
      waits := fun _ _ => nofun
      toConnect := fun hp d hd => ?_
      early := fun _ => nofun
      made := fun d => ?_
      came := fun c => ?_
      told := fun d => rfl
      dest := nofun
      user_conn := nofun
      chan_conn := nofun
      prio_conn := nofun
      ep_conn := nofun
      ctrl_conn := nofun
      user_sock := nofun
      ep_sock := nofun
      chan_sock := nofun
      backlog_sock := nofun
      chan_named := trivial
      ctrl_sock := nofun
      accepted := fun _ _ => nofun }
    · have hone := S.once p hp d
      have hne : d ≠ p := by omega
      simp only [hne, ne_eq, not_false_eq_true, and_true] at hone
      exact hone
    · have hreg : ((init S.prog).procs p).reg d = 0 := rfl
      rw [hreg, ite_self]
      rfl
    · have hreg : ((init S.prog).procs p).reg c = 0 := rfl
      rw [hreg, ite_self]
      rfl
  hello := nofun
  stream := nofun

theorem inv_step {n' : Net V} {a : Action} (h : n.Inv S) (ha : n.Allowed S.nodes a)
    (hok : n.step a = .ok n') : n'.Inv S := by
  cases a with
  | user p =>
    cases hok
    exact h.userStep ha.1
  | accept p =>
    cases hok
    exact h.accept ha.2.1
  | recv p src =>
    cases hok
    exact h.recv src
  | chan p =>
    obtain ⟨m, hm, hinv⟩ := h.chanStep p
    cases hm.symm.trans hok
    exact hinv
  | prio p => exact h.prioStep hok

theorem inv_of_reachable (h : (machine S).Reachable (Allowed S.nodes) n) : n.Inv S :=
  h.invariant (inv_init S) fun _ _ _ hinv ha hok => inv_step hinv ha hok

theorem Inv.eq_of_opened {k k' : Sock} (h : n.Inv S) (hk : k ∈ n.socks) (hk' : k' ∈ n.socks)
    (hclient : k.client = k'.client) (hserver : k.server = k'.server) : k = k' := by
  have hone := h.socks.once k'.client k'.server
  rw [opened, List.countP_eq_length_filter] at hone
  have hmem : ∀ j ∈ n.socks, j.client = k'.client → j.server = k'.server →
      j ∈ n.socks.filter fun j => j.client = k'.client ∧ j.server = k'.server :=
    fun j hj hc hs => List.mem_filter.mpr ⟨hj, decide_eq_true ⟨hc, hs⟩⟩
  have hin := hmem k hk hclient hserver
  have hin' := hmem k' hk' rfl rfl
  rcases hl : n.socks.filter (fun j => j.client = k'.client ∧ j.server = k'.server) with
    _ | ⟨j, _ | ⟨j', rest⟩⟩
  · rw [hl] at hin
    exact absurd hin List.not_mem_nil
  · rw [hl] at hin hin'
    rw [List.mem_singleton.mp hin, List.mem_singleton.mp hin']
  · rw [hl, List.length_cons, List.length_cons] at hone
    omega

theorem Inv.told_le_one (h : n.Inv S) (p d : ℤ) : (n.procs p).told d ≤ 1 := by
  have hq := h.proc p
  have hmade := hq.made d
  have hcame := hq.came d
  have hout := h.socks.once p d
  have hin := h.socks.once d p
  have hback : d ≤ p → opened n.socks p d = 0 := by
    refine fun hle => List.countP_eq_zero.mpr fun k hk hends => ?_
    have hlt := h.socks.lt k hk
    have hends := of_decide_eq_true hends
    omega
  have hself : d = p → (n.procs p).reg d = 0 := by
    rintro rfl
    rcases hget : (n.procs d).ctrlEndpoints.get? d with _ | ep
    · rw [Proc.reg, hget]
      rfl
    · have hends := (hq.ctrl_sock d ep hget).2
      omega
  rw [← hq.told d]
  split_ifs at hmade hcame <;> omega

instance : Decidable (n.CanUser p) := by
  unfold CanUser
  split <;> infer_instance

instance (src : ℤ) : Decidable (n.CanRecv p src) := by
  unfold CanRecv
  split <;> infer_instance

instance : Decidable (n.AtEpoll p) := by
  unfold AtEpoll
  split <;> infer_instance

instance : Decidable (n.CanChan p) := by
  unfold CanChan
  split <;> infer_instance

instance (nodes : List ℤ) : DecidablePred (n.Allowed nodes)
  | .user p => inferInstanceAs (Decidable (p ∈ nodes ∧ n.CanUser p))
  | .accept p => inferInstanceAs (Decidable (p ∈ nodes ∧ n.AtEpoll p ∧ (n.procs p).backlog ≠ []))
  | .recv p src => inferInstanceAs (Decidable (p ∈ nodes ∧ n.AtEpoll p ∧ n.CanRecv p src))
  | .chan p => inferInstanceAs (Decidable (p ∈ nodes ∧ n.CanChan p))
  | .prio p => inferInstanceAs (Decidable (p ∈ nodes))

/-- In every order of the threads' steps: the check of `AddEndpoint` does not fail, both ends of a
pair use one connection, and every part of a communicator has the same `ConnMeta` for it, which the
priority channel is given once. -/
theorem connections_agree (h : (machine S).Reachable (Allowed S.nodes) n) (p : ℤ) :
    (∃ m, n.chanStep p = .ok m) ∧
    (∀ d ep, (n.procs p).ctrlEndpoints.get? d = some ep →
      (n.procs p).idConn.get? d = some ep.conn ∧
      ∀ ep', (n.procs d).ctrlEndpoints.get? p = some ep' → ep'.sock = ep.sock) ∧
    ∀ d, ((n.procs p).connMetas.countP fun conn => conn.dest = d) ≤ 1 ∧
      ∀ conn ∈ (n.procs p).connMetas, conn.dest = d → (n.procs p).idConn.get? d = some conn := by
  have hinv := inv_of_reachable h
  refine ⟨?_, fun d ep hget => ⟨(hinv.proc p).ctrl_conn d ep hget, fun ep' hget' => ?_⟩, fun d =>
    ⟨?_, ?_⟩⟩
  · obtain ⟨m, hok, -⟩ := hinv.chanStep p
    exact ⟨m, hok⟩
  · obtain ⟨hmem, hends⟩ := (hinv.proc p).ctrl_sock d ep hget
    obtain ⟨hmem', hends'⟩ := (hinv.proc d).ctrl_sock p ep' hget'
    exact hinv.eq_of_opened hmem' hmem (by omega) (by omega)
  · have hle := hinv.told_le_one p d
    rw [Proc.told] at hle
    omega
  · rintro conn hmem rfl
    exact (hinv.proc p).prio_conn conn (List.mem_append_right _ hmem)

theorem nodup_two : ([0, 1] : List ℤ).Nodup := by decide

def twoNodes : Setup ℕ := .startup [0, 1] nodup_two (fun _ => []) nofun

def acceptedFirst : List Action :=
  [.user 0, .user 1, .user 0, .user 1, .user 0, .user 0, .accept 1, .user 0, .chan 1, .chan 1,
    .chan 1, .user 0, .chan 0, .chan 0, .chan 1, .prio 1, .prio 1]

theorem connections_agree_two : ∃ n, (machine twoNodes).Reachable (Allowed [0, 1]) n ∧
    (n.procs 1).connMetas = [⟨0, 0⟩] ∧
    ∃ ep ep', (n.procs 0).ctrlEndpoints.get? 1 = some ep ∧
      (n.procs 1).ctrlEndpoints.get? 0 = some ep' ∧ ep'.sock = ep.sock ∧
      (n.procs 0).idConn.get? 1 = some ep.conn := by
  obtain ⟨n, hreach, hmetas, hget, hget'⟩ := Machine.exists_reachable_of_run (machine twoNodes)
    (Allowed [0, 1]) acceptedFirst
    (fun n => (n.procs 1).connMetas = [⟨0, 0⟩] ∧
      (n.procs 0).ctrlEndpoints.get? 1 = some ⟨⟨0, 1, 0⟩, ⟨1, 0⟩⟩ ∧
      (n.procs 1).ctrlEndpoints.get? 0 = some ⟨⟨0, 1, 0⟩, ⟨0, 0⟩⟩) (by decide +kernel)
  obtain ⟨-, hagree, -⟩ := connections_agree hreach 0
  obtain ⟨hconn, hsock⟩ := hagree 1 _ hget
  exact ⟨n, hreach, hmetas, _, _, hget, hget', hsock _ hget', hconn⟩

end Net

end Mlt.Mesh
