import MltByteps.Mlt.ConnectProgress

/-! What becomes of the signals that a process sends to another: those that are received come in
the order in which they were sent, and those that are lost were sent first, by the process that
made the connection. -/

namespace Mlt.Mesh

variable {V : Type} {S : Setup V} {socks : List Sock} {p d : ℤ}

def signals (d : ℤ) (l : List (ℤ × Signal V)) : List (Signal V) :=
  (l.filter fun x => x.1 = d).map Prod.snd

@[simp] theorem signals_nil : signals d ([] : List (ℤ × Signal V)) = [] := rfl

@[simp] theorem signals_append (l l' : List (ℤ × Signal V)) :
    signals d (l ++ l') = signals d l ++ signals d l' := by
  rw [signals, List.filter_append, List.map_append]
  rfl

theorem signals_cons (x : ℤ × Signal V) (l : List (ℤ × Signal V)) :
    signals d (x :: l) = (if x.1 = d then [x.2] else []) ++ signals d l := by
  rw [signals, List.filter_cons]
  by_cases hx : x.1 = d <;> simp [hx, signals]

theorem signals_singleton (x : ℤ × Signal V) :
    signals d [x] = if x.1 = d then [x.2] else [] := by
  rw [signals_cons, signals_nil, List.append_nil]

/-! ## What a process may send -/

/-- The connection that a call of `AddConnection` is about. -/
def UserPc.pending : UserPc V → List ℤ
  | .start => []
  | .ready => []
  | .enqueueSend _ _ => []
  | .waiting dest => [dest]
  | .makeMeta dest => [dest]
  | .connecting conn => [conn.dest]
  | .sendId ep => [ep.conn.dest]
  | .notifyChannel ep => [ep.conn.dest]
  | .notifyPriority conn => [conn.dest]

namespace Proc

variable {q q' : Proc V}

/-- What is in `tx_queue_` goes to processes whose `AddConnection` has returned. -/
structure Orderly (S : Setup V) (p : ℤ) (q : Proc V) : Prop where
  after : p ∈ S.nodes → SendsAfter (q.added ++ q.user.pending) q.prog
  tx : ∀ x ∈ q.txQueue, x.1 ∈ q.added
  known : ∀ d ∈ q.added, d < p → (q.idConn.get? d).isSome

theorem orderly_init (S : Setup V) (p : ℤ) : Orderly S p (init (S.prog p)) :=
  ⟨S.after p, nofun, nofun⟩

def side (q : Proc V) :=
  (q.prog, q.user, q.added, q.txQueue, q.sent, q.dropped, q.received)

theorem Orderly.of_side (h : q.Orderly S p) (hside : q'.side = q.side)
    (hid : ∀ d, (q.idConn.get? d).isSome → (q'.idConn.get? d).isSome) : q'.Orderly S p := by
  simp only [side, Prod.mk.injEq] at hside
  obtain ⟨hprog, huser, hadded, htx, -⟩ := hside
  refine ⟨?_, ?_, fun d hd hlt => hid d ?_⟩
  · rw [hprog, huser, hadded]
    exact h.after
  · rw [htx, hadded]
    exact h.tx
  · exact h.known d (hadded ▸ hd) hlt

theorem Orderly.enqueue {x : Signal V} (h : q.Orderly S p) (hd : d ∈ q.added) :
    (q.enqueue d x).Orderly S p :=
  ⟨h.after, fun y hy => (List.mem_append.mp hy).elim (h.tx y) fun hy => by
    rw [List.mem_singleton.mp hy]
    exact hd, h.known⟩

theorem Orderly.popTx {x : Signal V} {txQueue : List (ℤ × Signal V)} (h : q.Orderly S p)
    (htx : q.txQueue = (d, x) :: txQueue) : Orderly S p { q with txQueue } :=
  ⟨h.after, fun y hy => h.tx y (htx ▸ List.mem_cons_of_mem _ hy), h.known⟩

theorem Orderly.call (h : q.Orderly S p) (hp : p ∈ S.nodes) (hu : q.user = .ready) :
    (q.call p).Orderly S p := by
  have hafter := h.after hp
  rw [hu, UserPc.pending, List.append_nil] at hafter
  unfold Proc.call
  split
  · exact h
  · next dest prog hprog =>
    rw [hprog] at hafter
    refine ⟨fun _ => ?_, h.tx, h.known⟩
    dsimp only
    split_ifs <;> exact hafter
  · next dest v prog hprog =>
    rw [hprog] at hafter
    have hrest : Orderly S p { q with prog } :=
      ⟨fun _ => by
        dsimp only
        rw [hu, UserPc.pending, List.append_nil]
        exact hafter.2, h.tx, h.known⟩
    exact hrest.enqueue hafter.1
  · next dest v prog hprog =>
    rw [hprog] at hafter
    have hrest : Orderly S p { q with prog, user := .enqueueSend dest v } :=
      ⟨fun _ => by
        dsimp only
        rw [UserPc.pending, List.append_nil]
        exact hafter.2, h.tx, h.known⟩
    exact hrest.enqueue hafter.1

theorem Orderly.added (h : q.Orderly S p) (hpending : q.user.pending = [d])
    (hid : (q.idConn.get? d).isSome) :
    Orderly S p { q with user := .ready, added := q.added ++ [d] } where
  after hp := by
    have hafter := h.after hp
    rw [hpending] at hafter
    dsimp only
    rw [UserPc.pending, List.append_nil]
    exact hafter
  tx x hx := List.mem_append_left _ (h.tx x hx)
  known d' hd' hlt := by
    rcases List.mem_append.mp hd' with hd' | hd'
    · exact h.known d' hd' hlt
    · rw [List.mem_singleton.mp hd']
      exact hid

theorem Orderly.setUser {user : UserPc V} (h : q.Orderly S p)
    (huser : user.pending = q.user.pending) : Orderly S p { q with user } :=
  ⟨fun hp => by
    dsimp only
    rw [huser]
    exact h.after hp, h.tx, h.known⟩

theorem Orderly.makeMeta (h : q.Orderly S p) (hinv : q.Inv S socks p) (hu : q.user = .makeMeta d) :
    (q.makeMeta d).Orderly S p := by
  have hpending : q.user.pending = [d] := by rw [hu]; rfl
  unfold Proc.makeMeta
  split
  · next conn hget =>
    refine h.setUser ?_
    rw [hpending, UserPc.pending, hinv.dest d conn hget]
  · refine ⟨fun hp => ?_, h.tx, fun d' hd' hlt => ?_⟩
    · have hafter := h.after hp
      rw [hpending] at hafter
      exact hafter
    · dsimp only
      rw [Dict.get?_set]
      split_ifs
      · rfl
      · exact h.known d' hd' hlt

theorem Orderly.userStep (h : q.Orderly S p) (hinv : q.Inv S socks p) (hp : p ∈ S.nodes)
    (hwait : ∀ d, q.user = .waiting d → (q.idConn.get? d).isSome) :
    (q.userStep p).Orderly S p := by
  unfold Proc.userStep
  rcases hu : q.user with _ | _ | d | d | conn | ep | ep | conn | ⟨d, v⟩ <;> dsimp only
  case start =>
    have h' : Orderly S p { q with user := .ready } := h.setUser (by rw [hu]; rfl)
    exact { h' with }
  case ready => exact h.call hp hu
  case waiting => exact h.added (by rw [hu]; rfl) (hwait d hu)
  case makeMeta => exact h.makeMeta hinv hu
  case connecting => exact h
  case sendId => exact h.setUser (by rw [hu]; rfl)
  case notifyChannel =>
    have h' : Orderly S p { q with user := .notifyPriority ep.conn } :=
      h.setUser (by rw [hu]; rfl)
    exact { h' with }
  case notifyPriority =>
    have hconn := hinv.user_conn conn (by rw [hu]; rfl)
    have h' : Orderly S p { q with user := .ready, added := q.added ++ [conn.dest] } :=
      h.added (by rw [hu]; rfl) (by rw [hconn]; rfl)
    exact { h' with }
  case enqueueSend =>
    have h' : Orderly S p { q with user := .ready } := h.setUser (by rw [hu]; rfl)
    exact { h' with }

theorem chanStep_side (hok : q.chanStep = .ok q') : q'.side = q.side ∧
    ∀ d, (q.idConn.get? d).isSome → (q'.idConn.get? d).isSome := by
  unfold chanStep at hok
  split at hok
  case h_3 sock dest _ =>
    cases hok
    refine ⟨rfl, fun d hd => ?_⟩
    unfold newMeta
    dsimp only
    rw [Dict.get?_set]
    split_ifs
    · rfl
    · exact hd
  case h_4 ep _ =>
    obtain ⟨q₁, hadd, hok⟩ := bind_eq_ok.mp hok
    obtain ⟨-, hadd⟩ := require_bind_eq_ok.mp hadd
    cases hadd
    cases hok
    exact ⟨rfl, fun _ hd => hd⟩
  case h_6 =>
    split at hok
    · cases hok
      exact ⟨rfl, fun _ hd => hd⟩
    · obtain ⟨-, hok⟩ := require_bind_eq_ok.mp hok
      cases hok
      exact ⟨rfl, fun _ hd => hd⟩
  all_goals
    cases hok
    exact ⟨rfl, fun _ hd => hd⟩

theorem prioStep_side (hok : q.prioStep = .ok q') : q'.side = q.side ∧ q'.idConn = q.idConn := by
  rcases prioStep_cases hok with ⟨_, rfl⟩ | ⟨d, v, srQueue, -, -, hok⟩ | ⟨_, _, -, rfl⟩
  · exact ⟨rfl, rfl⟩
  · unfold sendRequest at hok
    dsimp only at hok
    split at hok
    · cases hok
    · cases hok
      exact ⟨rfl, rfl⟩
  · exact ⟨rfl, rfl⟩

/-- Signals are only added to `tx_queue_`. -/
structure Grows (q q' : Proc V) : Prop where
  queued : ∃ l, q'.sent = q.sent ++ l ∧ q'.txQueue = q.txQueue ++ l
  dropped : q'.dropped = q.dropped
  received : q'.received = q.received
  ctrl : ∀ d ep, q.ctrlEndpoints.get? d = some ep → q'.ctrlEndpoints.get? d = some ep

theorem Grows.of_side (hside : q'.side = q.side)
    (hctrl : ∀ d ep, q.ctrlEndpoints.get? d = some ep → q'.ctrlEndpoints.get? d = some ep) :
    q.Grows q' := by
  simp only [side, Prod.mk.injEq] at hside
  obtain ⟨-, -, -, htx, hsent, hdropped, hreceived⟩ := hside
  exact ⟨⟨[], by rw [hsent, List.append_nil], by rw [htx, List.append_nil]⟩, hdropped, hreceived,
    hctrl⟩

theorem Grows.refl (q : Proc V) : q.Grows q := .of_side rfl fun _ _ hget => hget

theorem grows_call : q.Grows (q.call p) := by
  unfold call
  split
  · exact .refl q
  · exact ⟨⟨[], (List.append_nil _).symm, (List.append_nil _).symm⟩, rfl, rfl, fun _ _ hget => hget⟩
  · next dest v _ _ =>
    exact ⟨⟨[(dest, .userData v)], rfl, rfl⟩, rfl, rfl, fun _ _ hget => hget⟩
  · next dest v _ _ =>
    exact ⟨⟨[(dest, .flowStart v)], rfl, rfl⟩, rfl, rfl, fun _ _ hget => hget⟩

theorem grows_userStep : q.Grows (q.userStep p) := by
  unfold userStep
  split
  case h_2 => exact grows_call
  case h_4 =>
    unfold makeMeta
    split
    all_goals
      exact ⟨⟨[], (List.append_nil _).symm, (List.append_nil _).symm⟩, rfl, rfl,
        fun _ _ hget => hget⟩
  all_goals
    exact ⟨⟨[], (List.append_nil _).symm, (List.append_nil _).symm⟩, rfl, rfl,
      fun _ _ hget => hget⟩

end Proc

/-! ## From one process to another -/

namespace Net

variable {n n' : Net V} {q : Proc V} {ep ep' : Endpoint}

/-- What `p` has put on its endpoint to `d` and `d` has not received. -/
def wire (n : Net V) (p d : ℤ) : List (Signal V) :=
  match (n.procs p).ctrlEndpoints.get? d with
  | none => []
  | some ep => n.stream ep.sock p

theorem wire_of_none (hget : (n.procs p).ctrlEndpoints.get? d = none) : n.wire p d = [] := by
  rw [wire, hget]

theorem wire_of_some (hget : (n.procs p).ctrlEndpoints.get? d = some ep) :
    n.wire p d = n.stream ep.sock p := by
  rw [wire, hget]

/-- What was sent from one process to another was first dropped, then received, and then is on the
way. The process that accepts a connection drops nothing. -/
structure Delivered (S : Setup V) (n : Net V) : Prop where
  orderly : ∀ p, (n.procs p).Orderly S p
  account : ∀ p d, signals d (n.procs p).sent = signals d (n.procs p).dropped ++
    signals p (n.procs d).received ++ n.wire p d ++ signals d (n.procs p).txQueue
  silent : ∀ p d, (n.procs p).ctrlEndpoints.get? d = none → signals p (n.procs d).received = []
  kept : ∀ p d, d < p → signals d (n.procs p).dropped = []

theorem Inv.dest_of_sock {d' : ℤ} (h : n.Inv S)
    (hget : (n.procs p).ctrlEndpoints.get? d = some ep)
    (hget' : (n.procs p).ctrlEndpoints.get? d' = some ep') (hsock : ep.sock = ep'.sock) :
    d = d' := by
  obtain ⟨-, hends⟩ := (h.proc p).ctrl_sock d ep hget
  obtain ⟨-, hends'⟩ := (h.proc p).ctrl_sock d' ep' hget'
  rw [hsock] at hends
  omega

theorem Inv.wire_of_stream (h : n.Inv S) (hget : (n.procs d).ctrlEndpoints.get? p = some ep)
    (hne : n.stream ep.sock p ≠ []) :
    ∃ ep', (n.procs p).ctrlEndpoints.get? d = some ep' ∧ ep'.sock = ep.sock := by
  obtain ⟨d', ep', hget', hsock⟩ := h.stream _ p hne
  obtain ⟨-, hends⟩ := (h.proc d).ctrl_sock p ep hget
  obtain ⟨-, hends'⟩ := (h.proc p).ctrl_sock d' ep' hget'
  rw [hsock] at hends'
  obtain rfl : d' = d := by omega
  exact ⟨ep', hget', hsock⟩

theorem Inv.wire_eq (h : n.Inv S) (h' : n'.Inv S) (hstream : n'.stream = n.stream)
    (hctrl : ∀ d ep, (n.procs p).ctrlEndpoints.get? d = some ep →
      (n'.procs p).ctrlEndpoints.get? d = some ep) : n'.wire p d = n.wire p d := by
  rcases hget : (n.procs p).ctrlEndpoints.get? d with _ | ep
  · rw [wire_of_none hget]
    rcases hget' : (n'.procs p).ctrlEndpoints.get? d with _ | ep'
    · exact wire_of_none hget'
    · rw [wire_of_some hget', hstream]
      by_contra hne
      obtain ⟨d', ep, hgetd, hsock⟩ := h.stream _ p hne
      obtain rfl := h'.dest_of_sock (hctrl d' ep hgetd) hget' hsock
      rw [hget] at hgetd
      cases hgetd
  · rw [wire_of_some hget, wire_of_some (hctrl d ep hget), hstream]

theorem Delivered.grows (h : n.Delivered S) (hinv : n.Inv S) (hinv' : n'.Inv S)
    (hstream : n'.stream = n.stream) (hgrows : ∀ p, (n.procs p).Grows (n'.procs p))
    (horderly : ∀ p, (n'.procs p).Orderly S p) : n'.Delivered S where
  orderly := horderly
  account p d := by
    obtain ⟨l, hsent, htx⟩ := (hgrows p).queued
    rw [hsent, htx, (hgrows p).dropped, (hgrows d).received,
      hinv.wire_eq hinv' hstream (hgrows p).ctrl, signals_append, signals_append, h.account p d]
    simp only [List.append_assoc]
  silent p d hget := by
    rw [(hgrows d).received]
    refine h.silent p d ?_
    rcases hget' : (n.procs p).ctrlEndpoints.get? d with _ | ep
    · rfl
    · rw [(hgrows p).ctrl d ep hget'] at hget
      cases hget
  kept p d hlt := by
    rw [(hgrows p).dropped]
    exact h.kept p d hlt

theorem Delivered.orderly_setProc (h : n.Delivered S) (horderly : q.Orderly S p) (r : ℤ) :
    ((n.setProc p q).procs r).Orderly S r := by
  by_cases hr : r = p
  · subst hr
    rw [setProc_self]
    exact horderly
  · rw [setProc_of_ne hr]
    exact h.orderly r

theorem Delivered.step (h : n.Delivered S) (hinv : n.Inv S) (hinv' : n'.Inv S)
    (hstream : n'.stream = n.stream) (hprocs : n'.procs = (n.setProc p q).procs)
    (hgrows : (n.procs p).Grows q) (horderly : q.Orderly S p) : n'.Delivered S := by
  refine h.grows hinv hinv' hstream (fun r => ?_) fun r => ?_
  · rw [hprocs]
    by_cases hr : r = p
    · subst hr
      rw [setProc_self]
      exact hgrows
    · rw [setProc_of_ne hr]
      exact .refl _
  · rw [hprocs]
    exact h.orderly_setProc horderly r

theorem Delivered.connect {conn : Conn} (h : n.Delivered S) (hinv : n.Inv S) (hp : p ∈ S.nodes)
    (hu : (n.procs p).user = .connecting conn) : (n.connect p conn).Delivered S := by
  have hne : p ≠ conn.dest := by
    have hlt := (hinv.connecting hp hu).1
    omega
  refine h.grows hinv (hinv.connect hp hu) rfl (fun r => ?_) fun r => ?_
  all_goals
    by_cases hrp : r = p
    · subst hrp
      rw [connect_procs_client hne]
      first
        | exact ⟨⟨[], (List.append_nil _).symm, (List.append_nil _).symm⟩, rfl, rfl,
            fun _ _ hget => hget⟩
        | exact (h.orderly r).setUser (by rw [hu]; rfl)
    · by_cases hrd : r = conn.dest
      · subst hrd
        rw [connect_procs_server hne]
        first
          | exact .of_side rfl fun _ _ hget => hget
          | exact (h.orderly _).of_side rfl fun _ hid => hid
      · rw [connect_procs_other hrp hrd]
        first
          | exact .refl _
          | exact h.orderly r

theorem Delivered.userStep (h : n.Delivered S) (hinv : n.Inv S) (hp : p ∈ S.nodes)
    (hcan : n.CanUser p) : (n.userStep p).Delivered S := by
  have hinv' := hinv.userStep hp
  have horderly : ((n.procs p).userStep p).Orderly S p := by
    refine (h.orderly p).userStep (hinv.proc p) hp fun d hu => ?_
    unfold CanUser at hcan
    rw [hu] at hcan
    exact hcan
  unfold Net.userStep at hinv' ⊢
  split
  · next conn hu => exact h.connect hinv hp hu
  · next ep hu =>
    rw [hu] at hinv'
    exact h.step hinv hinv' rfl rfl Proc.grows_userStep horderly
  · next h₁ h₂ =>
    split at hinv'
    · next conn hu => exact (h₁ conn hu).elim
    · next ep hu => exact (h₂ ep hu).elim
    · exact h.step hinv hinv' rfl rfl Proc.grows_userStep horderly

theorem Delivered.accept (h : n.Delivered S) (hinv : n.Inv S) (hc : n.AtEpoll p) :
    (n.accept p).Delivered S := by
  have hinv' := hinv.accept hc
  unfold Net.accept at hinv' ⊢
  split
  · exact h
  · next k backlog hb =>
    rw [hb] at hinv'
    exact h.step hinv hinv' rfl rfl (.of_side rfl fun _ _ hget => hget)
      ((h.orderly p).of_side rfl fun _ hid => hid)

theorem Delivered.prioStep (h : n.Delivered S) (hinv : n.Inv S) (hok : n.prioStep p = .ok n') :
    n'.Delivered S := by
  have hinv' := hinv.prioStep hok
  obtain ⟨q, hq, hok⟩ := bind_eq_ok.mp hok
  cases hok
  obtain ⟨hside, hid⟩ := Proc.prioStep_side hq
  obtain ⟨-, hctrl⟩ := Proc.prioStep_frame hq
  exact h.step hinv hinv' rfl rfl (.of_side hside fun _ _ hget => hctrl ▸ hget)
    ((h.orderly p).of_side hside fun _ hsome => hid ▸ hsome)

theorem wire_setStream {r s : ℤ} {l : List (Signal V)} (hprocs : ∀ r,
      (n'.procs r).ctrlEndpoints = (n.procs r).ctrlEndpoints) (hinv : n.Inv S)
    (hget : (n.procs p).ctrlEndpoints.get? d = some ep)
    (hstream : n'.stream =
      Function.update n.stream ep.sock (Function.update (n.stream ep.sock) p l)) :
    n'.wire r s = if r = p ∧ s = d then l else n.wire r s := by
  rcases hrs : (n.procs r).ctrlEndpoints.get? s with _ | ep'
  · rw [wire_of_none hrs, wire_of_none (hprocs r ▸ hrs), if_neg]
    rintro ⟨rfl, rfl⟩
    rw [hget] at hrs
    cases hrs
  · rw [wire_of_some hrs, wire_of_some (hprocs r ▸ hrs), hstream]
    by_cases hsock : ep'.sock = ep.sock
    · rw [hsock, Function.update_self]
      by_cases hrp : r = p
      · subst hrp
        rw [Function.update_self, if_pos ⟨rfl, hinv.dest_of_sock hrs hget hsock⟩]
      · rw [Function.update_of_ne hrp, if_neg fun hand => hrp hand.1]
    · rw [Function.update_of_ne hsock, if_neg]
      rintro ⟨rfl, rfl⟩
      rw [hget] at hrs
      cases hrs
      exact hsock rfl

theorem Delivered.recv {src : ℤ} (h : n.Delivered S) (hinv : n.Inv S) :
    (n.recv p src).Delivered S := by
  unfold Net.recv
  split
  · exact h
  · next ep hget =>
    split
    · exact h
    · next x rest hs =>
      have hne : n.stream ep.sock src ≠ [] := by rw [hs]; exact List.cons_ne_nil _ _
      obtain ⟨ep', hback, hsock⟩ := hinv.wire_of_stream hget hne
      set q := { n.procs p with received := (n.procs p).received ++ [(src, x)] }
      set n' : Net V := { n.setProc p q with
        stream := Function.update n.stream ep.sock (Function.update (n.stream ep.sock) src rest) }
      have hctrl : ∀ r, (n'.procs r).ctrlEndpoints = (n.procs r).ctrlEndpoints :=
        setProc_proj Proc.ctrlEndpoints rfl
      have hsent : ∀ r, (n'.procs r).sent = (n.procs r).sent := setProc_proj Proc.sent rfl
      have hdropped : ∀ r, (n'.procs r).dropped = (n.procs r).dropped :=
        setProc_proj Proc.dropped rfl
      have htx : ∀ r, (n'.procs r).txQueue = (n.procs r).txQueue := setProc_proj Proc.txQueue rfl
      have hreceived : ∀ r s, signals r (n'.procs s).received = signals r (n.procs s).received ++
          if r = src ∧ s = p then [x] else [] := fun r s => by
        by_cases hsp : s = p
        · subst hsp
          have hself : (n'.procs s).received = (n.procs s).received ++ [(src, x)] :=
            congrArg Proc.received setProc_self
          rw [hself, signals_append, signals_singleton]
          simp only [and_true, eq_comm]
        · rw [if_neg fun hand => hsp hand.2, List.append_nil]
          exact congrArg (fun q => signals r (Proc.received q)) (setProc_of_ne hsp)
      have hwire : ∀ r s, n'.wire r s = if r = src ∧ s = p then rest else n.wire r s := fun r s =>
        wire_setStream hctrl hinv hback (by rw [hsock])
      refine ⟨fun r => ?_, fun r s => ?_, fun r s hnone => ?_, fun r s hlt => ?_⟩
      · have hq : q.Orderly S p := { h.orderly p with }
        exact h.orderly_setProc hq r
      · rw [hsent, hdropped, htx, hreceived, hwire, h.account r s]
        split_ifs with hrs
        · obtain ⟨rfl, rfl⟩ := hrs
          rw [wire_of_some hback, hsock, hs]
          simp
        · simp
      · rw [hreceived, if_neg, List.append_nil]
        · exact h.silent r s (hctrl r ▸ hnone)
        · rintro ⟨rfl, rfl⟩
          rw [hctrl, hback] at hnone
          cases hnone
      · rw [hdropped]
        exact h.kept r s hlt

section Route

variable {x : Signal V} {txQueue : List (ℤ × Signal V)}

theorem setProc_setProc {q' : Proc V} : (n.setProc p q).setProc p q' = n.setProc p q' := by
  unfold setProc
  rw [Function.update_idem]

theorem Delivered.le_of_none (h : n.Delivered S) (hinv : n.Inv S) (hc : (n.procs p).chan = .tx)
    (htx : (n.procs p).txQueue = (d, x) :: txQueue)
    (hnone : (n.procs p).ctrlEndpoints.get? d = none) : ¬d < p := by
  intro hlt
  have hadded := (h.orderly p).tx (d, x) (htx ▸ List.mem_cons_self)
  have hknown := (h.orderly p).known d hadded hlt
  rcases (hinv.proc p).accepted d hlt hknown with ⟨ep, hc', -⟩ | hsome
  · rw [hc] at hc'
    cases hc'
  · rw [hnone] at hsome
    cases hsome

theorem Delivered.drop (h : n.Delivered S) (hinv : n.Inv S) (hc : (n.procs p).chan = .tx)
    (htx : (n.procs p).txQueue = (d, x) :: txQueue)
    (hnone : (n.procs p).ctrlEndpoints.get? d = none) :
    (n.setProc p { n.procs p with
      txQueue, dropped := (n.procs p).dropped ++ [(d, x)] }).Delivered S := by
  set q := { n.procs p with txQueue, dropped := (n.procs p).dropped ++ [(d, x)] }
  have hreceived : ∀ r, ((n.setProc p q).procs r).received = (n.procs r).received :=
    setProc_proj Proc.received rfl
  have hctrl : ∀ r, ((n.setProc p q).procs r).ctrlEndpoints = (n.procs r).ctrlEndpoints :=
    setProc_proj Proc.ctrlEndpoints rfl
  have hsent : ∀ r, ((n.setProc p q).procs r).sent = (n.procs r).sent := setProc_proj Proc.sent rfl
  have hwire : ∀ r s, (n.setProc p q).wire r s = n.wire r s := fun r s => by
    rw [wire, wire, hctrl]
    rfl
  have hq : q.Orderly S p := { (h.orderly p).popTx htx with }
  refine ⟨h.orderly_setProc hq, fun r s => ?_, fun r s hget => ?_, fun r s hlt => ?_⟩
  · rw [hsent, hreceived, hwire, h.account r s]
    by_cases hr : r = p
    · subst hr
      have hrest : q.txQueue = txQueue := rfl
      rw [setProc_self, hrest, htx, signals_cons, signals_append, signals_singleton]
      by_cases hds : d = s
      · subst hds
        rw [h.silent r d hnone, wire_of_none hnone]
        simp
      · simp [hds]
    · rw [setProc_of_ne hr]
  · rw [hreceived]
    exact h.silent r s (hctrl r ▸ hget)
  · by_cases hr : r = p
    · subst hr
      rw [setProc_self, signals_append, h.kept r s hlt, signals_singleton, if_neg, List.nil_append]
      rintro rfl
      exact h.le_of_none hinv hc htx hnone hlt
    · rw [setProc_of_ne hr]
      exact h.kept r s hlt

theorem Delivered.put (h : n.Delivered S) (hinv : n.Inv S)
    (htx : (n.procs p).txQueue = (d, x) :: txQueue)
    (hget : (n.procs p).ctrlEndpoints.get? d = some ep) :
    ({ n.setProc p { n.procs p with txQueue } with
      stream := Function.update n.stream ep.sock
        (Function.update (n.stream ep.sock) p (n.stream ep.sock p ++ [x])) } : Net V).Delivered
      S := by
  set n' : Net V := { n.setProc p { n.procs p with txQueue } with
    stream := Function.update n.stream ep.sock
      (Function.update (n.stream ep.sock) p (n.stream ep.sock p ++ [x])) }
  have hctrl : ∀ r, (n'.procs r).ctrlEndpoints = (n.procs r).ctrlEndpoints :=
    setProc_proj Proc.ctrlEndpoints rfl
  have hreceived : ∀ r, (n'.procs r).received = (n.procs r).received :=
    setProc_proj Proc.received rfl
  have hdropped : ∀ r, (n'.procs r).dropped = (n.procs r).dropped :=
    setProc_proj Proc.dropped rfl
  have hsent : ∀ r, (n'.procs r).sent = (n.procs r).sent := setProc_proj Proc.sent rfl
  have hwire : ∀ r s, n'.wire r s =
      if r = p ∧ s = d then n.stream ep.sock p ++ [x] else n.wire r s := fun r s =>
    wire_setStream hctrl hinv hget rfl
  refine ⟨h.orderly_setProc ((h.orderly p).popTx htx), fun r s => ?_, fun r s hnone => ?_,
    fun r s hlt => ?_⟩
  · rw [hsent, hdropped, hreceived, hwire, h.account r s]
    by_cases hr : r = p
    · subst hr
      have hself : (n'.procs r).txQueue = txQueue := congrArg Proc.txQueue setProc_self
      rw [hself, htx, signals_cons]
      by_cases hds : s = d
      · subst hds
        rw [if_pos rfl, if_pos ⟨rfl, rfl⟩, wire_of_some hget]
        simp
      · rw [if_neg fun hd => hds hd.symm, if_neg fun hand => hds hand.2, List.nil_append]
    · have hother : n'.procs r = n.procs r := setProc_of_ne hr
      rw [hother, if_neg fun hand => hr hand.1]
  · rw [hreceived]
    exact h.silent r s (hctrl r ▸ hnone)
  · rw [hdropped]
    exact h.kept r s hlt

theorem Delivered.route (h : n.Delivered S) (hinv : n.Inv S) (hc : (n.procs p).chan = .tx)
    (htx : (n.procs p).txQueue = (d, x) :: txQueue) :
    ((n.setProc p { n.procs p with txQueue }).route p d x).Delivered S := by
  unfold Net.route
  rw [setProc_self]
  dsimp only
  split
  · next hnone =>
    rw [setProc_setProc]
    exact h.drop hinv hc htx hnone
  · next ep hget => exact h.put hinv htx hget

end Route

theorem Delivered.chanStep (h : n.Delivered S) (hinv : n.Inv S) (hok : n.chanStep p = .ok n') :
    n'.Delivered S := by
  obtain ⟨m, hm, hinv'⟩ := hinv.chanStep p
  cases hm.symm.trans hok
  unfold Net.chanStep at hok
  split at hok
  · next d x txQueue hc htx =>
    cases hok
    exact h.route hinv hc htx
  · obtain ⟨q, hq, hok⟩ := bind_eq_ok.mp hok
    cases hok
    obtain ⟨hside, hid⟩ := Proc.chanStep_side hq
    obtain ⟨q', hq', -, -, hctrl⟩ := (hinv.proc p).chanStep hinv.socks
    cases hq'.symm.trans hq
    exact h.step hinv hinv' rfl rfl (.of_side hside hctrl) ((h.orderly p).of_side hside hid)

theorem delivered_init (S : Setup V) : (init S.prog).Delivered S where
  orderly p := Proc.orderly_init S p
  account _ _ := rfl
  silent _ _ _ := rfl
  kept _ _ _ := rfl

theorem delivered_of_reachable (h : (machine S).Reachable (Allowed S.nodes) n) :
    n.Delivered S := by
  refine (h.invariant (P := fun n => n.Inv S ∧ n.Delivered S) ⟨inv_init S, delivered_init S⟩ ?_).2
  rintro n a n' ⟨hinv, hdel⟩ ha hok
  refine ⟨inv_step hinv ha hok, ?_⟩
  cases a with
  | user p =>
    cases hok
    exact hdel.userStep hinv ha.1 ha.2
  | accept p =>
    cases hok
    exact hdel.accept hinv ha.2.1
  | recv p src =>
    cases hok
    exact hdel.recv hinv
  | chan p => exact hdel.chanStep hinv hok
  | prio p => exact hdel.prioStep hinv hok

theorem Complete.wire_eq_nil (h : n.Complete S) (hp : p ∈ S.nodes) (hd : d ∈ S.nodes)
    (hne : p ≠ d) : n.wire p d = [] := by
  rcases lt_or_gt_of_ne hne with hlt | hlt
  · obtain ⟨k, conn, conn', hget, -, hempty, -⟩ := h.linked p hp d hd hlt
    rw [wire_of_some hget, hempty]
  · obtain ⟨k, conn, conn', -, hget, -, hempty⟩ := h.linked d hd p hp hlt
    rw [wire_of_some hget, hempty]

def greeting : Setup ℕ := .startup [0, 1] nodup_two
  (fun p => [.sendMeta (1 - p) 7]) (by decide)

def greetingLost : List Action :=
  [.user 0, .user 1, .user 0, .user 0, .user 0, .user 0, .chan 0, .chan 0, .user 0, .user 0,
    .user 0, .chan 0]

end Net

end Mlt.Mesh
