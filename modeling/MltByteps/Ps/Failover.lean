import MltByteps.Lib.Machine
import MltByteps.Ps.Assign

/-! Nodes that die, restart and register again: what the scheduler does with them. -/

namespace Ps

inductive FailoverAction where
  -- The heartbeat of a node arrives.
  | heartbeat (id t : ℤ)
  -- A restarted node registers.
  | restart (clock : Clock) (node : Node)

variable (po : Postoffice) (timeout : ℤ)

def failoverStep (v : Van) : FailoverAction → Except VanFault Van
  | .heartbeat id t => .ok (v.updateHeartbeat id t)
  | .restart clock node => do
    let (v, _) ← v.processAddNodeCommand po timeout clock (registration node)
    return v

def failovers (v : Van) : Machine Van FailoverAction VanFault := ⟨v, failoverStep po timeout⟩

def StartedUp (v : Van) : Prop :=
  ∃ (v₀ : Van) (arrivals : List (Clock × Node)) (out : List Meta), v₀.Collecting [] ∧
    arrivals ≠ [] ∧ Registrations po (arrivals.map Prod.snd) ∧
    v₀.registerAll po timeout arrivals = .ok (v, out)

def Node.replacing (node dead : Node) : Node := { node with id := dead.id, isRecovery := true }

/-- A restarted node takes the place of a dead node of its role, gets the whole table, and every
other live node gets a message that names only this node. -/
structure Recovered (clock : Clock) (node : Node) (v v' : Van) (out : List Meta) (d : Node) :
    Prop where
  dead : d ∈ v.nodes ∧ d.role = node.role ∧
    ∃ dead, v.getDeadNodes po timeout clock.dead = .ok dead ∧ d.id ∈ dead
  table : node.replacing d ∈ v'.nodes
  ids : (v'.nodes.map Node.id).Perm (v.nodes.map Node.id)
  recvers : ∃ dead, v.getDeadNodes po timeout clock.deadAgain = .ok dead ∧
    out.map Meta.recver =
      (po.members (kWorkerGroup + kServerGroup)).filter fun r => r = d.id ∨ r ∉ dead
  restarted : ∃ m ∈ out, m.recver = d.id ∧ m.control.node = v'.nodes
  others : ∀ m ∈ out, m.recver ≠ d.id → m.control.node = [node.replacing d]

/-! ## The state after start-up -/

namespace Van

variable {po timeout} {v v' : Van}

structure Started (po : Postoffice) (v : Van) : Prop where
  isScheduler : v.isScheduler = true
  ready : v.ready = true
  length : v.nodes.length = po.numServers + po.numWorkers + 1
  pos : 0 < po.numServers + po.numWorkers

theorem Started.getDeadNodes (h : v.Started po) (timeout now : ℤ) :
    ∃ dead, v.getDeadNodes po timeout now = .ok dead ∧
      ∀ r ∈ dead, r ∈ po.members (kWorkerGroup + kServerGroup) := by
  unfold Van.getDeadNodes
  rw [h.isScheduler, if_pos rfl, po.getNodeIDs_workers_servers h.pos]
  split_ifs
  · exact ⟨[], rfl, fun _ hr => nomatch hr⟩
  · exact ⟨_, rfl, fun r hr => (List.mem_filter.mp hr).1⟩

/-- `UpdateLocalID` finds a dead node of the role, and the restarted node takes its place. -/
theorem recover_eq {dead : List ℤ} {node : Node}
    (h : ∃ d ∈ v.nodes.dropLast, d.id ∈ dead ∧ d.role = node.role) :
    ∃ i d, v.nodes[i]? = some d ∧ d.id ∈ dead ∧ d.role = node.role ∧
      v.recover dead node = ({ v with
        nodes := v.nodes.set i (node.replacing d)
        recoveryNodes := v.recoveryNodes ++ [node.replacing d] }, node.replacing d) := by
  unfold recover
  rcases hfind : v.nodes.dropLast.findIdx? fun n => decide (n.id ∈ dead) && n.role = node.role
    with _ | i
  · obtain ⟨d, hd, hdead, hrole⟩ := h
    rw [List.findIdx?_eq_none_iff] at hfind
    have := hfind d hd
    simp [hdead, hrole] at this
  · obtain ⟨hi, hp, -⟩ := List.findIdx?_eq_some_iff_getElem.mp hfind
    have hget : v.nodes[i]? = some v.nodes.dropLast[i] := by
      rw [List.getElem_dropLast]
      exact List.getElem?_eq_getElem _
    rw [Bool.and_eq_true, decide_eq_true_iff, decide_eq_true_iff] at hp
    refine ⟨i, _, hget, hp.1, hp.2, ?_⟩
    rw [hfind]
    dsimp only
    rw [List.getD_eq_getElem?_getD, hget]
    rfl

theorem Started.processAddNodeCommand_eq (h : v.Started po) (timeout : ℤ) (clock : Clock)
    (node : Node) {dead : List ℤ} (hdead : v.getDeadNodes po timeout clock.dead = .ok dead) :
    ∃ myNode rank, v.processAddNodeCommand po timeout clock (registration node) =
      processAddNodeCommandAtScheduler po timeout clock
        { (v.recover dead node).1 with myNode, rank } := by
  have hassign : v.assignId po dead (registration node) =
      .ok ((v.recover dead node).1, [(v.recover dead node).2]) := by
    unfold assignId registration
    rw [if_pos rfl, require_bind _ h.isScheduler]
    dsimp only
    rw [if_neg (by rw [h.length]; omega), require_bind _ h.ready]
    rfl
  have hsched : (v.recover dead node).1.isScheduler = true := by
    unfold recover
    split
    · exact h.isScheduler
    · exact h.isScheduler
  obtain ⟨myNode, rank, hmy⟩ := updateMyNode_eq (v.recover dead node).1 (v.recover dead node).2
  refine ⟨myNode, rank, ?_⟩
  rw [Van.processAddNodeCommand_eq hdead hassign, List.foldl_cons, List.foldl_nil, hmy]
  exact if_pos hsched

theorem Started.processAtScheduler (h : v.Started po) (timeout : ℤ) (clock : Clock) {node : Node}
    (hrec : v.recoveryNodes = [node]) {dead : List ℤ}
    (hdead : v.getDeadNodes po timeout clock.deadAgain = .ok dead) :
    ∃ (v' : Van) (out : List Meta),
      v.processAddNodeCommandAtScheduler po timeout clock = .ok (v', out) ∧
      v'.nodes = v.nodes ∧
      out.map Meta.recver =
        (po.members (kWorkerGroup + kServerGroup)).filter (fun r => r = node.id ∨ r ∉ dead) ∧
      ∀ m ∈ out, m.control.node = if m.recver = node.id then v.nodes else [node] := by
  unfold processAddNodeCommandAtScheduler
  rw [if_neg (by rw [h.length]; omega), hrec]
  dsimp only
  rw [hdead, ok_bind, require_bind _ rfl, po.getNodeIDs_workers_servers h.pos, ok_bind]
  refine ⟨_, _, rfl, rfl, ?_, fun m hm => ?_⟩
  · rw [List.map_map]
    refine (List.zipIdx_map_fst 0 _).trans (List.filter_congr fun r _ => ?_)
    simp only [decide_eq_decide]
    tauto
  · obtain ⟨r, -, rfl⟩ := List.mem_map.mp hm
    change (if r.1 = node.id then v.nodes else v.recoveryNodes) = _
    rw [hrec]
    rfl

theorem Started.processAtScheduler_error (h : v.Started po) (timeout : ℤ) (clock : Clock)
    {node : Node} {rest : List Node} (hrec : v.recoveryNodes = node :: rest) (hrest : rest ≠ []) :
    v.processAddNodeCommandAtScheduler po timeout clock = .error .recoverySize := by
  obtain ⟨dead, hdead, -⟩ := h.getDeadNodes timeout clock.deadAgain
  unfold processAddNodeCommandAtScheduler
  rw [if_neg (by rw [h.length]; omega), hrec]
  dsimp only
  rw [hdead, ok_bind]
  unfold require
  rw [if_neg hrest]
  rfl

/-! ## Steps -/

theorem Started.recover (h : v.Started po) (dead : List ℤ) (node : Node) :
    (v.recover dead node).1.Started po := by
  unfold Van.recover
  split
  · exact h
  · exact ⟨h.isScheduler, h.ready, (List.length_set ..).trans h.length, h.pos⟩

theorem Started.of_processAtScheduler (h : v.Started po) {clock : Clock} {out : List Meta}
    (hs : v.processAddNodeCommandAtScheduler po timeout clock = .ok (v', out)) :
    v'.Started po := by
  unfold processAddNodeCommandAtScheduler at hs
  rw [if_neg (by rw [h.length]; omega)] at hs
  split at hs
  · cases hs
    exact h
  · obtain ⟨dead, -, hs⟩ := bind_eq_ok.mp hs
    obtain ⟨-, hs⟩ := require_bind_eq_ok.mp hs
    obtain ⟨ids, -, hs⟩ := bind_eq_ok.mp hs
    cases hs
    exact ⟨h.isScheduler, h.ready, h.length, h.pos⟩

theorem Started.step (h : v.Started po) {a : FailoverAction}
    (hs : failoverStep po timeout v a = .ok v') : v'.Started po := by
  cases a with
  | heartbeat id t =>
    cases hs
    exact ⟨h.isScheduler, h.ready, h.length, h.pos⟩
  | restart clock node =>
    obtain ⟨⟨v₁, out⟩, hrun, hs⟩ := bind_eq_ok.mp hs
    cases hs
    obtain ⟨dead, hdead, -⟩ := h.getDeadNodes timeout clock.dead
    obtain ⟨myNode, rank, heq⟩ := h.processAddNodeCommand_eq timeout clock node hdead
    rw [heq] at hrun
    have hrec := h.recover dead node
    have hrec' : Started po { (v.recover dead node).1 with myNode, rank } :=
      ⟨hrec.isScheduler, hrec.ready, hrec.length, hrec.pos⟩
    exact hrec'.of_processAtScheduler hrun

end Van

theorem StartedUp.started {po : Postoffice} {timeout : ℤ} {v : Van} (h : StartedUp po timeout v) :
    v.Started po ∧ v.recoveryNodes = [] := by
  obtain ⟨v₀, arrivals, out, hv₀, hne, hreg, hrun⟩ := h
  obtain ⟨v', out', hrun', hnodes, ⟨hsched, hready, hrec⟩, -⟩ := hv₀.registerAll timeout hne
    hreg.length hreg.ids hreg.addresses
  cases hrun.symm.trans hrun'
  have hlen : v.nodes.length = po.numServers + po.numWorkers + 1 := by
    rw [hnodes, List.length_append, ← List.length_map Node.address, address_withRanks,
      List.length_map, (sortNodes_perm _).length_eq, List.nil_append, hreg.length]
    rfl
  refine ⟨⟨hsched, hready, hlen, ?_⟩, hrec⟩
  rw [← hreg.length, List.length_map]
  exact List.length_pos_iff.mpr hne

/-- In every state after start-up, a restarted node of the role of a dead node is handled as it
should be exactly if no node was recovered before. -/
theorem recovered_iff {po : Postoffice} {timeout : ℤ} {v₀ v : Van} (h₀ : StartedUp po timeout v₀)
    (h : (failovers po timeout v₀).Reachable (fun _ _ => True) v) (clock : Clock) {node : Node}
    {dead : List ℤ} (hdead : v.getDeadNodes po timeout clock.dead = .ok dead)
    (hnode : ∃ d ∈ v.nodes.dropLast, d.id ∈ dead ∧ d.role = node.role) :
    (∃ v' out d, v.processAddNodeCommand po timeout clock (registration node) = .ok (v', out) ∧
      Recovered po timeout clock node v v' out d) ↔ v.recoveryNodes = [] := by
  have hv : v.Started po :=
    h.invariant (P := Van.Started po) h₀.started.1 fun _ _ _ h _ hs => h.step hs
  obtain ⟨i, d, hi, hd, hrole, hrecover⟩ := Van.recover_eq hnode
  obtain ⟨myNode, rank, heq⟩ := hv.processAddNodeCommand_eq timeout clock node hdead
  have hrec := hv.recover dead node
  rw [heq]
  rw [hrecover] at hrec ⊢
  dsimp only at hrec ⊢
  have hrec' : Van.Started po { v with
      myNode, rank
      nodes := v.nodes.set i (node.replacing d)
      recoveryNodes := v.recoveryNodes ++ [node.replacing d] } :=
    ⟨hrec.isScheduler, hrec.ready, hrec.length, hrec.pos⟩
  constructor
  · rintro ⟨v', out, d', hrun, -⟩
    by_contra hne
    obtain ⟨a, l, hal⟩ := List.exists_cons_of_ne_nil hne
    rw [hrec'.processAtScheduler_error timeout clock (congrArg (· ++ _) hal) (by simp)] at hrun
    exact nomatch hrun
  · intro hnil
    obtain ⟨dead', hdead', -⟩ := hv.getDeadNodes timeout clock.deadAgain
    obtain ⟨v', out, hrun, hnodes, hrecvers, hmsg⟩ := hrec'.processAtScheduler timeout clock
      (congrArg (· ++ _) hnil) hdead'
    refine ⟨v', out, d, hrun, ?_⟩
    have hlt := (List.getElem?_eq_some_iff.mp hi).1
    have hmem : d.id ∈ po.members (kWorkerGroup + kServerGroup) := by
      obtain ⟨dead'', hdead'', hsub⟩ := hv.getDeadNodes timeout clock.dead
      cases hdead.symm.trans hdead''
      exact hsub _ hd
    constructor
    · exact ⟨List.mem_of_getElem? hi, hrole, dead, hdead, hd⟩
    · rw [hnodes]
      exact List.mem_set hlt _
    · rw [hnodes, List.map_set]
      have hset : (v.nodes.map Node.id).set i d.id = v.nodes.map Node.id := by
        obtain ⟨hlt, rfl⟩ := List.getElem?_eq_some_iff.mp hi
        rw [← List.getElem_map Node.id (h := by simpa using hlt), List.set_getElem_self]
      exact List.Perm.of_eq hset
    · exact ⟨dead', hdead', hrecvers⟩
    · have hin : d.id ∈ out.map Meta.recver := by
        rw [hrecvers]
        exact List.mem_filter.mpr ⟨hmem, by simp [Node.replacing]⟩
      obtain ⟨m, hm, hrecver⟩ := List.mem_map.mp hin
      refine ⟨m, hm, hrecver, ?_⟩
      rw [hmsg m hm, hnodes]
      exact if_pos hrecver
    · intro m hm hne
      rw [hmsg m hm]
      exact if_neg hne

/-! ## Two failovers -/

def twoNodes : List (Clock × Node) :=
  [(⟨0, 0, 0⟩, { role := .worker, hostname := [49], port := 5 }),
    (⟨0, 0, 0⟩, { role := .server, hostname := [49], port := 6 })]

def startedVan : Van :=
  ((freshScheduler.registerAll ⟨1, 1⟩ 10 twoNodes).toOption.map Prod.fst).getD freshScheduler

theorem startedUp_startedVan : StartedUp ⟨1, 1⟩ 10 startedVan := by
  have hsome : (freshScheduler.registerAll ⟨1, 1⟩ 10 twoNodes).toOption.isSome = true := by
    decide +kernel
  have hvan : startedVan = ((freshScheduler.registerAll ⟨1, 1⟩ 10 twoNodes).toOption.map
    Prod.fst).getD freshScheduler := rfl
  rcases hrun : freshScheduler.registerAll ⟨1, 1⟩ 10 twoNodes with e | ⟨v, out⟩
  · rw [hrun] at hsome
    exact nomatch hsome
  · rw [hrun] at hvan
    refine ⟨freshScheduler, twoNodes, out, ⟨rfl, rfl, rfl, rfl, rfl, rfl, rfl, rfl⟩,
      by simp [twoNodes], ⟨by decide, by decide, by decide, by decide, by decide⟩, ?_⟩
    rw [hrun, hvan]
    rfl

def newServer : Node := { role := .server, hostname := [49], port := 7 }

theorem recovered_iff_startedVan : ∃ v : Van,
    (failovers ⟨1, 1⟩ 10 startedVan).Reachable (fun _ _ => True) v ∧
    ∃ v' out d,
      v.processAddNodeCommand ⟨1, 1⟩ 10 ⟨20, 20, 20⟩ (registration newServer) = .ok (v', out) ∧
      Recovered ⟨1, 1⟩ 10 ⟨20, 20, 20⟩ newServer v v' out d := by
  obtain ⟨v, hv, hdead, hnode, hrec⟩ := (failovers ⟨1, 1⟩ 10 startedVan).exists_reachable_of_run
    (fun _ _ => True) [.heartbeat 9 15]
    (fun v => v.getDeadNodes ⟨1, 1⟩ 10 20 = .ok [8] ∧
      (∃ d ∈ v.nodes.dropLast, d.id ∈ [(8 : ℤ)] ∧ d.role = newServer.role) ∧
      v.recoveryNodes = [])
    (by decide +kernel)
  exact ⟨v, hv, (recovered_iff startedUp_startedVan hv ⟨20, 20, 20⟩ hdead hnode).mpr hrec⟩

/-- The server restarts while the worker is alive. Then the worker dies and restarts as well, and
the scheduler aborts. -/
theorem second_restart_aborts : ∃ v : Van, StartedUp ⟨1, 1⟩ 10 startedVan ∧
    (failovers ⟨1, 1⟩ 10 startedVan).Reachable (fun _ _ => True) v ∧
    v.getDeadNodes ⟨1, 1⟩ 10 40 = .ok [9] ∧
    (∃ d ∈ v.nodes.dropLast, d.id = 9 ∧ d.role = .worker) ∧
    (v.processAddNodeCommand ⟨1, 1⟩ 10 ⟨40, 40, 40⟩
      (registration { role := .worker, hostname := [49], port := 8 })).map (fun x => x.2.length) =
        .error .recoverySize := by
  obtain ⟨v, hv, hres⟩ := (failovers ⟨1, 1⟩ 10 startedVan).exists_reachable_of_run
    (fun _ _ => True)
    [.heartbeat 9 15, .restart ⟨20, 20, 20⟩ newServer, .heartbeat 8 35]
    (fun v => v.getDeadNodes ⟨1, 1⟩ 10 40 = .ok [9] ∧
      (∃ d ∈ v.nodes.dropLast, d.id = 9 ∧ d.role = .worker) ∧
      (v.processAddNodeCommand ⟨1, 1⟩ 10 ⟨40, 40, 40⟩
        (registration { role := .worker, hostname := [49], port := 8 })).map
          (fun x => x.2.length) = .error .recoverySize)
    (by decide +kernel)
  exact ⟨v, startedUp_startedVan, hv, hres⟩

end Ps
