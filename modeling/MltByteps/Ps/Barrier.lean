import MltByteps.Lib.Lists
import MltByteps.Lib.Machine
import MltByteps.Ps.Postoffice
import Mathlib.Data.List.GetD
import Mathlib.Logic.Function.Basic

/-! Barriers. The scheduler counts the requests of each group and answers all members when the
count is full; a node waits for one flag. Messages are delivered once, in any order. The handler
at the scheduler is one step: it runs in the receiving thread, which alone uses
`barrier_count_`, and a response that is not sent yet is like one that is under way. -/

namespace Ps
open Lists

/-! ## The code -/

/-- `map[key] = value`. -/
def setFlag (key : ℤ) (value : Bool) : List (ℤ × Bool) → List (ℤ × Bool)
  | [] => [(key, value)]
  | x :: flags => if x.1 = key then (key, value) :: flags else x :: setFlag key value flags

/-- `map[key]`, which is `false` for a new key. -/
def getFlag (key : ℤ) (flags : List (ℤ × Bool)) : Bool := (flags.lookup key).getD false

/-- `barrier_done_`: the flags of the customers of each app. -/
abbrev BarrierDone := ℤ → List (ℤ × Bool)

def manage (recv : Meta) (done : BarrierDone) : Except VanFault BarrierDone := do
  require .emptyControl (recv.control.cmd ≠ .empty)
  if recv.control.cmd = .barrier ∧ recv.request = false then
    let flags := done recv.appId
    return Function.update done recv.appId
      ((List.range flags.length).foldl (fun flags c => setFlag c true flags) flags)
  else
    return done

/-- The bit that `Barrier` looks for in the group of a node. -/
def Role.kind : Role → ℤ
  | .scheduler => kScheduler
  | .worker => kWorkerGroup
  | .server => kServerGroup

/-- The first part of `Postoffice::Barrier`, up to the wait: the flags and the request to send,
or `none` if it returns at once. -/
def Postoffice.barrier (po : Postoffice) (role : Role) (customerId group timestamp : ℤ)
    (done : BarrierDone) : Except VanFault (Option (BarrierDone × Meta)) := do
  let ids ← po.getNodeIDs group
  if ids.length ≤ 1 then return none
  require .barrierGroup (includes group role.kind)
  let req : Meta :=
    { recver := kScheduler, request := true, appId := 0, customerId, timestamp,
      control := { cmd := .barrier, barrierGroup := group } }
  return some (Function.update done 0 (setFlag customerId false (done 0)), req)

/-- The part of `ProcessBarrierCommand` for requests: `barrier_count_` and the responses to send.
`sharedNodeMapping` holds the nodes that share the process of another one. -/
def Postoffice.processBarrierRequest (po : Postoffice) (sharedNodeMapping : List (ℤ × ℤ))
    (timestamp : ℤ) (msg : Meta) (count : List ℤ) : Except VanFault (List ℤ × List Meta) := do
  let count := if count = [] then List.replicate 8 0 else count
  let group := msg.control.barrierGroup
  require .barrierCount (0 ≤ group ∧ group.toNat < count.length)
  let count := count.modify group.toNat (· + 1)
  let ids ← po.getNodeIDs group
  if count.getD group.toNat 0 = ids.length then
    let res : Meta :=
      { request := false, appId := msg.appId, customerId := msg.customerId,
        control := { cmd := .barrier } }
    let recvers := ids.filter fun r => (sharedNodeMapping.lookup r).isNone
    return (count.set group.toNat 0,
      recvers.zipIdx.map fun r => { res with recver := r.1, timestamp := timestamp + r.2 })
  else
    return (count, [])

/-! ## Nodes and messages -/

/-- A node with one customer. The functions count, for each group, the calls of `Barrier`, the
requests the scheduler has processed, the responses it has sent and the calls that returned. -/
structure Member where
  waiting : Option ℤ
  done : BarrierDone
  issued : ℤ → ℕ
  processed : ℤ → ℕ
  answered : ℤ → ℕ
  returned : ℤ → ℕ

/-- The nodes with the `timestamp_` of their vans, the counters of the scheduler and the messages
under way. -/
structure Barriers where
  member : ℤ → Member
  timestamp : ℤ → ℤ
  count : List ℤ
  net : List Meta

inductive BarrierAction where
  -- A node that is in no call calls `Barrier`.
  | call (node group : ℤ)
  -- The wait of a node ends.
  | wake (node : ℤ)
  -- A message reaches the receiving thread of its receiver.
  | receive (msg : ℕ)

def roleOf (node : ℤ) : Role :=
  if node = kScheduler then .scheduler else if node % 2 = 1 then .worker else .server

def bump (group : ℤ) (f : ℤ → ℕ) : ℤ → ℕ := Function.update f group (f group + 1)

namespace Barriers

def init : Barriers where
  member _ := ⟨none, fun _ => [], fun _ => 0, fun _ => 0, fun _ => 0, fun _ => 0⟩
  timestamp _ := 0
  count := []
  net := []

def setMember (node : ℤ) (m : Member) (s : Barriers) : Barriers :=
  { s with member := Function.update s.member node m }

def record (req : Meta) (responses : List Meta) (s : Barriers) (node : ℤ) : Member :=
  let group := req.control.barrierGroup
  let m := s.member node
  { m with
    processed := if node = req.sender then bump group m.processed else m.processed
    answered := if node ∈ responses.map Meta.recver then bump group m.answered else m.answered }

end Barriers

open Barriers

def barrierStep (po : Postoffice) (s : Barriers) : BarrierAction → Except VanFault Barriers
  | .call node group =>
    let m := s.member node
    if m.waiting.isSome then .ok s else do
      match ← po.barrier (roleOf node) 0 group (s.timestamp node) m.done with
      | none =>
        return s.setMember node
          { m with issued := bump group m.issued, returned := bump group m.returned }
      | some (done, req) =>
        return { s.setMember node { m with
            waiting := some group, done, issued := bump group m.issued } with
          timestamp := Function.update s.timestamp node (s.timestamp node + 1)
          net := s.net ++ [{ req with sender := node }] }
  | .wake node =>
    let m := s.member node
    match m.waiting with
    | none => .ok s
    | some group =>
      if getFlag 0 (m.done 0) then
        .ok (s.setMember node { m with waiting := none, returned := bump group m.returned })
      else .ok s
  | .receive i =>
    match s.net[i]? with
    | none => .ok s
    | some msg =>
      if msg.request then do
        -- Nodes do not share processes.
        let (count, responses) ← po.processBarrierRequest [] (s.timestamp kScheduler) msg s.count
        return {
          member := s.record msg responses
          timestamp := Function.update s.timestamp kScheduler
            (s.timestamp kScheduler + responses.length)
          count
          net := s.net.eraseIdx i ++ responses }
      else do
        let m := s.member msg.recver
        let done ← manage msg m.done
        return { s.setMember msg.recver { m with done } with net := s.net.eraseIdx i }

def barrierMachine (po : Postoffice) : Machine Barriers BarrierAction VanFault :=
  ⟨.init, barrierStep po⟩

/-- Nodes call `Barrier` on groups they belong to. -/
def BarrierAction.Valid (po : Postoffice) : BarrierAction → Prop
  | .call node group => 1 ≤ group ∧ group ≤ 7 ∧ node ∈ po.members group
  | _ => True

/-! ## What the functions do -/

def countOf (count : List ℤ) (group : ℤ) : ℤ := count.getD group.toNat 0

section Spec

variable {po : Postoffice}

theorem barrier_spec {role : Role} {customerId group timestamp : ℤ} {done : BarrierDone}
    {r : Option (BarrierDone × Meta)}
    (h : po.barrier role customerId group timestamp done = .ok r) :
    r = none ∧ (po.members group).length ≤ 1 ∨
      1 < (po.members group).length ∧ ∃ req : Meta, req.request = true ∧ req.appId = 0 ∧
        req.control.cmd = .barrier ∧ req.control.barrierGroup = group ∧
        r = some (Function.update done 0 (setFlag customerId false (done 0)), req) := by
  obtain ⟨ids, hids, h⟩ := bind_eq_ok.mp h
  obtain ⟨-, hids⟩ := require_bind_eq_ok.mp hids
  cases hids
  split_ifs at h with hle
  · cases h
    exact .inl ⟨rfl, hle⟩
  · obtain ⟨-, h⟩ := require_bind_eq_ok.mp h
    cases h
    exact .inr ⟨not_le.mp hle, _, rfl, rfl, rfl, rfl, rfl⟩

theorem manage_eq {msg : Meta} {done : BarrierDone} {b : Bool} (hcmd : msg.control.cmd = .barrier)
    (hreq : msg.request = false) (happ : msg.appId = 0) (hdone : done 0 = [(0, b)]) :
    manage msg done = .ok (Function.update done 0 [(0, true)]) := by
  unfold manage
  rw [require_bind _ (by rw [hcmd]; exact Command.noConfusion), if_pos ⟨hcmd, hreq⟩, happ, hdone]
  rfl

/-- The counters after a request: either the group is not complete yet, or its counter is reset
and each member is answered. -/
theorem processBarrierRequest_spec {timestamp : ℤ} {msg : Meta} {count count' : List ℤ}
    {responses : List Meta} (hsize : count = [] ∨ count.length = 8)
    (h : po.processBarrierRequest [] timestamp msg count = .ok (count', responses)) :
    count'.length = 8 ∧
      (∀ g, 0 ≤ g → g ≠ msg.control.barrierGroup → countOf count' g = countOf count g) ∧
      (countOf count msg.control.barrierGroup + 1 = (po.members msg.control.barrierGroup).length ∧
          countOf count' msg.control.barrierGroup = 0 ∧
          responses.map Meta.recver = po.members msg.control.barrierGroup ∧
          (∀ res ∈ responses, res.request = false ∧ res.appId = msg.appId ∧
            res.control.cmd = .barrier) ∨
        countOf count msg.control.barrierGroup + 1 ≠ (po.members msg.control.barrierGroup).length ∧
          countOf count' msg.control.barrierGroup = countOf count msg.control.barrierGroup + 1 ∧
          responses = []) := by
  unfold Postoffice.processBarrierRequest at h
  dsimp only at h
  -- The vector is filled with zeros before its first use.
  have hlen : (if count = [] then List.replicate 8 0 else count).length = 8 := by
    split_ifs with hnil
    · rfl
    · exact hsize.resolve_left hnil
  have hget : ∀ g, countOf (if count = [] then List.replicate 8 0 else count) g =
      countOf count g := by
    intro g
    split_ifs with hnil
    · unfold countOf
      rw [hnil, List.getD_eq_getElem?_getD, List.getElem?_replicate]
      split_ifs <;> rfl
    · rfl
  generalize (if count = [] then List.replicate 8 (0 : ℤ) else count) = c at h hlen hget
  generalize msg.control.barrierGroup = g at h ⊢
  obtain ⟨⟨hg, hlt⟩, h⟩ := require_bind_eq_ok.mp h
  obtain ⟨ids, hids, h⟩ := bind_eq_ok.mp h
  obtain ⟨-, hids⟩ := require_bind_eq_ok.mp hids
  cases hids
  have hself : (c.modify g.toNat (· + 1)).getD g.toNat 0 = countOf count g + 1 := by
    rw [← hget, countOf, List.getD_eq_getElem _ _ (by simpa using hlt), List.getElem_modify_eq,
      List.getD_eq_getElem _ _ hlt]
  have hother : ∀ g', 0 ≤ g' → g' ≠ g →
      countOf (c.modify g.toNat (· + 1)) g' = countOf count g' := by
    intro g' hg' hne
    rw [← hget, countOf, countOf, List.getD_eq_getElem?_getD, List.getD_eq_getElem?_getD,
      List.getElem?_modify_ne _ _ (by omega)]
  rw [hself] at h
  split_ifs at h with hfull
  · cases h
    refine ⟨by simp [hlen], fun g' hg' hne => ?_, .inl ⟨hfull, ?_, ?_, ?_⟩⟩
    · rw [← hother g' hg' hne, countOf, countOf, List.getD_eq_getElem?_getD,
        List.getD_eq_getElem?_getD, List.getElem?_set_ne (by omega)]
    · rw [countOf, List.getD_eq_getElem _ _ (by simpa using hlt), List.getElem_set_self]
    · have hall : (po.members g).filter (fun r => (([] : List (ℤ × ℤ)).lookup r).isNone) =
          po.members g := List.filter_eq_self.mpr fun _ _ => rfl
      rw [hall, List.map_map]
      exact List.zipIdx_map_fst 0 _
    · intro res hres
      obtain ⟨x, -, rfl⟩ := List.mem_map.mp hres
      exact ⟨rfl, rfl, rfl⟩
  · cases h
    exact ⟨by simp [hlen], hother, .inr ⟨hfull, hself, rfl⟩⟩

end Spec

/-! ## Where a node stands -/

inductive Phase where
  | outside
  | requested (group : ℤ)
  | counted (group : ℤ)
  | answered (group : ℤ)
  | released (group : ℤ)
deriving DecidableEq

namespace Phase

def group : Phase → Option ℤ
  | outside => none
  | requested g => some g
  | counted g => some g
  | answered g => some g
  | released g => some g

def requests : Phase → List ℤ
  | requested g => [g]
  | _ => []

def responses : Phase → ℕ
  | answered _ => 1
  | _ => 0

def isReleased : Phase → Bool
  | released _ => true
  | _ => false

end Phase

namespace Barriers

def requests (s : Barriers) (node : ℤ) : List Meta :=
  s.net.filter fun m => m.request ∧ m.sender = node

def responses (s : Barriers) (node : ℤ) : List Meta :=
  s.net.filter fun m => ¬m.request ∧ m.recver = node

/-- The counts of a node for a group on which `Barrier` waits. -/
structure Tallies (m : Member) (p : Phase) (g : ℤ) : Prop where
  issued : m.issued g = m.returned g + if p.group = some g then 1 else 0
  processed : m.processed g =
    m.returned g + if p = .counted g ∨ p = .answered g ∨ p = .released g then 1 else 0
  answered : m.answered g = m.returned g + if p = .answered g ∨ p = .released g then 1 else 0

structure Stands (po : Postoffice) (s : Barriers) (node : ℤ) (p : Phase) : Prop where
  waiting : (s.member node).waiting = p.group
  flags : (s.member node).done 0 = [] ∧ p = .outside ∨
    ∃ b, (s.member node).done 0 = [(0, b)] ∧ (p ≠ .outside → b = p.isReleased)
  requests : (s.requests node).map (·.control.barrierGroup) = p.requests
  responses : (s.responses node).length = p.responses
  tallies : ∀ g, 1 < (po.members g).length → Tallies (s.member node) p g
  small : ∀ g, (po.members g).length ≤ 1 → (s.member node).issued g = (s.member node).returned g

/-- The nodes stand where `φ` says. -/
structure Inv (po : Postoffice) (φ : ℤ → Phase) (s : Barriers) : Prop where
  stands : ∀ node, Stands po s node (φ node)
  groups : ∀ node g, (φ node).group = some g →
    (1 ≤ g ∧ g ≤ 7) ∧ node ∈ po.members g ∧ 1 < (po.members g).length
  messages : ∀ m ∈ s.net, m.control.cmd = .barrier ∧ m.appId = 0
  size : s.count = [] ∨ s.count.length = 8
  count : ∀ g, 1 ≤ g → g ≤ 7 →
    countOf s.count g = (po.members g).countP (φ · = .counted g)
  rounds : ∀ g, ∀ u ∈ po.members g, ∀ v ∈ po.members g,
    (s.member u).answered g = (s.member v).answered g

variable {po : Postoffice} {s s' : Barriers} {φ : ℤ → Phase} {node : ℤ}

theorem Stands.congr {p : Phase} (h : Stands po s node p) (hm : s'.member node = s.member node)
    (hreq : s'.requests node = s.requests node)
    (hres : (s'.responses node).length = (s.responses node).length) : Stands po s' node p where
  waiting := hm ▸ h.waiting
  flags := hm ▸ h.flags
  requests := hreq ▸ h.requests
  responses := hres ▸ h.responses
  tallies := hm ▸ h.tallies
  small := hm ▸ h.small

theorem inv_init (po : Postoffice) : Inv po (fun _ => .outside) .init where
  stands _ := ⟨rfl, .inl ⟨rfl, rfl⟩, rfl, rfl, fun _ _ => ⟨rfl, rfl, rfl⟩, fun _ _ => rfl⟩
  groups _ _ h := nomatch h
  messages _ h := nomatch h
  size := .inl rfl
  count _ _ _ := by simp [init, countOf]
  rounds _ _ _ _ _ := rfl

theorem Inv.call_small {g : ℤ} (h : Inv po φ s) (hsmall : (po.members g).length ≤ 1) :
    Inv po φ (s.setMember node { s.member node with
      issued := bump g (s.member node).issued, returned := bump g (s.member node).returned }) := by
  refine { h with stands := fun v => ?_, rounds := fun g' u hu v hv => ?_ }
  · by_cases hv : v = node
    · subst hv
      have hs := h.stands v
      refine ⟨?_, ?_, hs.requests, hs.responses, fun g' hg' => ?_, fun g' hg' => ?_⟩
      · simpa [setMember] using hs.waiting
      · simpa [setMember] using hs.flags
      · have hne : g' ≠ g := by rintro rfl; omega
        have ht := hs.tallies g' hg'
        constructor <;> simp [setMember, bump, hne, ht.issued, ht.processed, ht.answered]
      · simp only [setMember, bump, Function.update_self]
        by_cases hg : g' = g
        · subst hg
          simp [hs.small g' hg']
        · simp [hg, hs.small g' hg']
    · exact (h.stands v).congr (Function.update_of_ne hv _ _) rfl rfl
  · have hans : ∀ w, ((s.setMember node { s.member node with
        issued := bump g (s.member node).issued
        returned := bump g (s.member node).returned }).member w).answered =
          (s.member w).answered := by
      intro w
      by_cases hw : w = node
      · subst hw
        simp [setMember]
      · simp [setMember, hw]
    rw [hans, hans]
    exact h.rounds g' u hu v hv

theorem Inv.move (h : Inv po φ s) {p : Phase} (hstands : Stands po s' node p)
    (hgroup : ∀ g, p.group = some g →
      (1 ≤ g ∧ g ≤ 7) ∧ node ∈ po.members g ∧ 1 < (po.members g).length)
    (hmember : ∀ v ≠ node, s'.member v = s.member v)
    (hanswered : (s'.member node).answered = (s.member node).answered)
    (hrequests : ∀ v ≠ node, s'.requests v = s.requests v)
    (hresponses : ∀ v ≠ node, s'.responses v = s.responses v)
    (hmessages : ∀ m ∈ s'.net, m.control.cmd = .barrier ∧ m.appId = 0)
    (hcount : s'.count = s.count) (hφ : ∀ g, φ node ≠ .counted g) (hp : ∀ g, p ≠ .counted g) :
    Inv po (Function.update φ node p) s' := by
  have hans : ∀ w, (s'.member w).answered = (s.member w).answered := by
    intro w
    by_cases hw : w = node
    · rw [hw, hanswered]
    · rw [hmember w hw]
  refine ⟨fun v => ?_, fun v g hg => ?_, hmessages, hcount ▸ h.size, fun g hpos hle => ?_,
    fun g u hu v hv => ?_⟩
  · by_cases hv : v = node
    · subst hv
      rw [Function.update_self]
      exact hstands
    · rw [Function.update_of_ne hv]
      exact (h.stands v).congr (hmember v hv) (hrequests v hv)
        (congrArg List.length (hresponses v hv))
  · by_cases hv : v = node
    · subst hv
      rw [Function.update_self] at hg
      exact hgroup g hg
    · rw [Function.update_of_ne hv] at hg
      exact h.groups v g hg
  · rw [hcount, h.count g hpos hle]
    refine congrArg Nat.cast (List.countP_congr fun v _ => ?_)
    by_cases hv : v = node
    · subst hv
      simp [hφ g, hp g]
    · simp [hv]
  · rw [hans, hans]
    exact h.rounds g u hu v hv

theorem setFlag_flags {flags : List (ℤ × Bool)} (h : flags = [] ∨ ∃ b, flags = [(0, b)])
    (value : Bool) : setFlag 0 value flags = [(0, value)] := by
  rcases h with rfl | ⟨b, rfl⟩ <;> rfl

theorem Inv.call {g : ℤ} {req : Meta} (h : Inv po φ s) (hout : (s.member node).waiting = none)
    (hpos : 1 ≤ g) (hle : g ≤ 7) (hmem : node ∈ po.members g) (hbig : 1 < (po.members g).length)
    (hreq : req.request = true) (happ : req.appId = 0) (hcmd : req.control.cmd = .barrier)
    (hgroup : req.control.barrierGroup = g) :
    Inv po (Function.update φ node (.requested g)) { s.setMember node { s.member node with
        waiting := some g
        done := Function.update (s.member node).done 0 (setFlag 0 false ((s.member node).done 0))
        issued := bump g (s.member node).issued } with
      timestamp := Function.update s.timestamp node (s.timestamp node + 1)
      net := s.net ++ [{ req with sender := node }] } := by
  have hs := h.stands node
  have hφ : φ node = .outside := by
    have hw := hs.waiting
    rw [hout] at hw
    cases hp : φ node <;> rw [hp] at hw <;> first | rfl | cases hw
  rw [hφ] at hs
  have hrequests : ∀ v, Barriers.requests
      { s with net := s.net ++ [{ req with sender := node }] } v =
      s.requests v ++ if v = node then [{ req with sender := node }] else [] := by
    intro v
    unfold Barriers.requests
    rw [List.filter_append, List.filter_singleton]
    by_cases hv : v = node
    · simp [hreq, hv]
    · simp [hreq, hv, Ne.symm hv]
  have hresponses : ∀ v, Barriers.responses
      { s with net := s.net ++ [{ req with sender := node }] } v =
      s.responses v := by
    intro v
    unfold Barriers.responses
    rw [List.filter_append, List.filter_singleton]
    simp [hreq]
  refine h.move ⟨?_, .inr ⟨false, ?_, fun _ => rfl⟩, ?_, ?_, fun g' hg' => ?_, fun g' hg' => ?_⟩
    (fun g' hg' => ?_) (fun v hv => Function.update_of_ne hv _ _) ?_ (fun v hv => ?_)
    (fun v _ => hresponses v) (fun m hm => ?_) rfl (by simp [hφ]) (by simp)
  · simp [setMember, Phase.group]
  · have hflags : (s.member node).done 0 = [] ∨ ∃ b, (s.member node).done 0 = [(0, b)] :=
      hs.flags.imp And.left fun ⟨b, hb, _⟩ => ⟨b, hb⟩
    simp [setMember, setFlag_flags hflags]
  · refine (congrArg (List.map _) (hrequests node)).trans ?_
    rw [List.map_append, hs.requests]
    simp [Phase.requests, hgroup]
  · exact (congrArg List.length (hresponses node)).trans hs.responses
  · have ht := hs.tallies g' hg'
    by_cases hne : g' = g
    · subst hne
      constructor <;>
        simp [setMember, bump, ht.issued, ht.processed, ht.answered, Phase.group]
    · have hne' : g ≠ g' := Ne.symm hne
      constructor <;>
        simp [setMember, bump, ht.issued, ht.processed, ht.answered, Phase.group, hne, hne']
  · have hne : g' ≠ g := by rintro rfl; omega
    simpa [setMember, bump, hne] using hs.small g' hg'
  · obtain rfl : g = g' := by simpa [Phase.group] using hg'
    exact ⟨⟨hpos, hle⟩, hmem, hbig⟩
  · simp [setMember]
  · exact (hrequests v).trans (by simp [hv])
  · rcases List.mem_append.mp hm with hm | hm
    · exact h.messages m hm
    · rw [List.mem_singleton.mp hm]
      exact ⟨hcmd, happ⟩

theorem Inv.wake {g : ℤ} (h : Inv po φ s) (hwaiting : (s.member node).waiting = some g)
    (hflag : getFlag 0 ((s.member node).done 0) = true) :
    Inv po (Function.update φ node .outside) (s.setMember node { s.member node with
      waiting := none, returned := bump g (s.member node).returned }) := by
  have hs := h.stands node
  have hφ : φ node = .released g := by
    have hw := hs.waiting
    rw [hwaiting] at hw
    rcases hs.flags with ⟨hnil, -⟩ | ⟨b, hb, hrel⟩
    · rw [hnil] at hflag
      cases hflag
    · rw [hb] at hflag
      have hb : b = true := hflag
      subst hb
      cases hp : φ node with
      | released g' =>
        rw [hp] at hw
        cases hw
        rfl
      | outside =>
        rw [hp] at hw
        cases hw
      | _ =>
        rw [hp] at hrel
        cases hrel (by simp)
  rw [hφ] at hs
  refine h.move ⟨?_, .inr ?_, hs.requests, hs.responses, fun g' hg' => ?_, fun g' hg' => ?_⟩
    (fun g' hg' => nomatch hg') (fun v hv => Function.update_of_ne hv _ _) ?_ (fun _ _ => rfl)
    (fun _ _ => rfl) h.messages rfl (by simp [hφ]) (by simp)
  · simp [setMember, Phase.group]
  · rcases hs.flags with ⟨-, hp⟩ | ⟨b, hb, -⟩
    · cases hp
    · exact ⟨b, by simpa [setMember] using hb, fun hp => absurd rfl hp⟩
  · have ht := hs.tallies g' hg'
    by_cases hne : g' = g
    · subst hne
      constructor <;>
        simp [setMember, bump, ht.issued, ht.processed, ht.answered, Phase.group]
    · have hne' : g ≠ g' := Ne.symm hne
      constructor <;>
        simp [setMember, bump, ht.issued, ht.processed, ht.answered, Phase.group, hne, hne']
  · have hne : g' ≠ g := by
      have hbig := (h.groups node g (by rw [hφ]; rfl)).2.2
      rintro rfl
      omega
    simpa [setMember, bump, hne] using hs.small g' hg'
  · simp [setMember]

theorem Inv.response {i : ℕ} {msg : Meta} {done : BarrierDone} (h : Inv po φ s)
    (hmsg : s.net[i]? = some msg) (hres : msg.request = false)
    (hmanage : manage msg (s.member msg.recver).done = .ok done) :
    ∃ g, Inv po (Function.update φ msg.recver (.released g))
      { s.setMember msg.recver { s.member msg.recver with done } with
        net := s.net.eraseIdx i } := by
  have hs := h.stands msg.recver
  obtain ⟨hcmd, happ⟩ := h.messages msg (List.mem_of_getElem? hmsg)
  have hmem : msg ∈ s.responses msg.recver :=
    List.mem_filter.mpr ⟨List.mem_of_getElem? hmsg, by simp [hres]⟩
  obtain ⟨g, hφ⟩ : ∃ g, φ msg.recver = .answered g := by
    have hpos := List.length_pos_of_mem hmem
    rw [hs.responses] at hpos
    cases hp : φ msg.recver with
    | answered g => exact ⟨g, rfl⟩
    | _ =>
      rw [hp] at hpos
      cases hpos
  rw [hφ] at hs
  obtain ⟨b, hb, -⟩ := hs.flags.resolve_left (by simp)
  rw [manage_eq hcmd hres happ hb] at hmanage
  cases hmanage
  obtain ⟨y, hy⟩ := List.length_eq_one_iff.mp hs.responses
  have herase := (filter_eraseIdx_of_singleton hmsg (by simp [hres]) hy).2
  refine ⟨g, h.move ⟨?_, .inr ⟨true, ?_, fun _ => rfl⟩, ?_, ?_, fun g' hg' => ?_, fun g' hg' => ?_⟩
    (fun g' hg' => h.groups _ g' (by rw [hφ]; exact hg'))
    (fun v hv => Function.update_of_ne hv _ _) ?_ (fun v _ => ?_) (fun v hv => ?_)
    (fun m hm => h.messages m (List.mem_of_mem_eraseIdx hm)) rfl (by simp [hφ]) (by simp)⟩
  · simpa [setMember, Phase.group] using hs.waiting
  · simp [setMember]
  · unfold Barriers.requests
    dsimp only
    rw [filter_eraseIdx_of_neg hmsg (by simp [hres])]
    exact hs.requests
  · exact congrArg List.length herase
  · have ht := hs.tallies g' hg'
    constructor <;>
      simp [setMember, ht.issued, ht.processed, ht.answered, Phase.group]
  · simpa [setMember] using hs.small g' hg'
  · simp [setMember]
  · exact filter_eraseIdx_of_neg hmsg (by simp [hres])
  · exact filter_eraseIdx_of_neg hmsg (by simp [Ne.symm hv])

section Request

variable {i : ℕ} {msg : Meta} {g : ℤ}

theorem Inv.requested (h : Inv po φ s) (hmsg : s.net[i]? = some msg) (hreq : msg.request = true) :
    φ msg.sender = .requested msg.control.barrierGroup ∧
      (s.net.eraseIdx i).filter (fun m => m.request ∧ m.sender = msg.sender) = [] := by
  have hs := (h.stands msg.sender).requests
  have hmem : msg ∈ s.requests msg.sender :=
    List.mem_filter.mpr ⟨List.mem_of_getElem? hmsg, by simp [hreq]⟩
  cases hp : φ msg.sender with
  | requested g =>
    rw [hp, Phase.requests] at hs
    obtain ⟨y, hy, hyg⟩ := List.map_eq_singleton_iff.mp hs
    obtain ⟨rfl, herase⟩ := filter_eraseIdx_of_singleton hmsg (by simp [hreq]) hy
    exact ⟨by rw [hyg], herase⟩
  | _ =>
    rw [hp] at hs
    rw [List.map_eq_nil_iff.mp hs] at hmem
    cases hmem

theorem Inv.request {count : List ℤ} {ts : ℤ → ℤ} (h : Inv po φ s) (hmsg : s.net[i]? = some msg)
    (hreq : msg.request = true) (hlen : count.length = 8)
    (hother : ∀ g, 0 ≤ g → g ≠ msg.control.barrierGroup → countOf count g = countOf s.count g)
    (hcount : countOf count msg.control.barrierGroup =
      countOf s.count msg.control.barrierGroup + 1) :
    Inv po (Function.update φ msg.sender (.counted msg.control.barrierGroup))
      ⟨s.record msg [], ts, count, s.net.eraseIdx i⟩ := by
  obtain ⟨hφ, herase⟩ := h.requested hmsg hreq
  obtain ⟨⟨hpos, hle⟩, hmem, hbig⟩ := h.groups msg.sender _ (by rw [hφ]; rfl)
  have hs := h.stands msg.sender
  rw [hφ] at hs
  have hrecord : ∀ v ≠ msg.sender, s.record msg [] v = s.member v := by
    intro v hv
    simp [record, hv]
  refine ⟨fun v => ?_, fun v g hg => ?_, fun m hm => h.messages m (List.mem_of_mem_eraseIdx hm),
    .inr hlen, fun g hpos' hle' => ?_, fun g u hu v hv => ?_⟩
  · by_cases hv : v = msg.sender
    · subst hv
      rw [Function.update_self]
      refine ⟨hs.waiting, ?_, ?_, ?_, fun g' hg' => ?_, hs.small⟩
      · obtain ⟨b, hb, hrel⟩ := hs.flags.resolve_left (by simp)
        exact .inr ⟨b, hb, fun _ => hrel (by simp)⟩
      · exact congrArg (List.map _) herase
      · refine (congrArg List.length ?_).trans hs.responses
        exact filter_eraseIdx_of_neg hmsg (by simp [hreq])
      · have ht := hs.tallies g' hg'
        by_cases hne : g' = msg.control.barrierGroup
        · subst hne
          constructor <;>
            simp [record, bump, ht.issued, ht.processed, ht.answered, Phase.group]
        · constructor <;>
            simp [record, bump, ht.issued, ht.processed, ht.answered, Phase.group, hne, Ne.symm hne]
    · rw [Function.update_of_ne hv]
      refine (h.stands v).congr (hrecord v hv) ?_ (congrArg List.length ?_)
      · exact filter_eraseIdx_of_neg hmsg (by simp [Ne.symm hv])
      · exact filter_eraseIdx_of_neg hmsg (by simp [hreq])
  · by_cases hv : v = msg.sender
    · subst hv
      rw [Function.update_self] at hg
      obtain rfl := Option.some.inj hg
      exact ⟨⟨hpos, hle⟩, hmem, hbig⟩
    · rw [Function.update_of_ne hv] at hg
      exact h.groups v g hg
  · dsimp only
    by_cases hg : g = msg.control.barrierGroup
    · subst hg
      have hadd : (po.members msg.control.barrierGroup).countP (fun v =>
          Function.update φ msg.sender (.counted msg.control.barrierGroup) v =
            .counted msg.control.barrierGroup) =
          (po.members msg.control.barrierGroup).countP
            (φ · = .counted msg.control.barrierGroup) + 1 :=
        countP_eq_add_one (po.nodup_members hpos hle) hmem (by simp [hφ]) (by simp)
          fun w _ hw => by simp [hw]
      rw [hcount, h.count _ hpos hle, hadd]
      rfl
    · rw [hother g (by omega) hg, h.count g hpos' hle']
      refine congrArg Nat.cast (List.countP_congr fun v _ => ?_)
      by_cases hv : v = msg.sender
      · subst hv
        simp [hφ, Ne.symm hg]
      · simp [hv]
  · exact h.rounds g u hu v hv

theorem filter_recver {responses : List Meta} (hres : ∀ m ∈ responses, m.request = false)
    (node : ℤ) : (responses.filter fun m => ¬m.request ∧ m.recver = node).length =
      (responses.map Meta.recver).count node := by
  rw [← List.countP_eq_length_filter, List.count, List.countP_map]
  refine List.countP_congr fun m hm => ?_
  simp [hres m hm]

/-- Before the request that completes the group, the sender's request is under way and the other
members have been counted. -/
def completing (msg : Meta) (v : ℤ) : Phase :=
  if v = msg.sender then .requested msg.control.barrierGroup
  else .counted msg.control.barrierGroup

theorem Inv.eq_completing (h : Inv po φ s) (hmsg : s.net[i]? = some msg) (hreq : msg.request = true)
    (hfull : countOf s.count msg.control.barrierGroup + 1 =
      (po.members msg.control.barrierGroup).length) {v : ℤ}
    (hv : v ∈ po.members msg.control.barrierGroup) : φ v = completing msg v := by
  have hφ := (h.requested hmsg hreq).1
  obtain ⟨⟨hpos, hle⟩, hmem, -⟩ := h.groups msg.sender _ (by rw [hφ]; rfl)
  unfold completing
  split_ifs with hne
  · rw [hne, hφ]
  · have hnot : decide (φ msg.sender = .counted msg.control.barrierGroup) = false := by simp [hφ]
    rw [h.count _ hpos hle] at hfull
    exact of_decide_eq_true
      (forall_of_countP_add_one hmem hnot (by exact_mod_cast hfull) hv hne)

theorem Tallies.complete {v g' : ℤ} {responses : List Meta}
    (ht : Tallies (s.member v) (completing msg v) g') (hv : v ∈ responses.map Meta.recver) :
    Tallies (s.record msg responses v) (.answered msg.control.barrierGroup) g' := by
  obtain ⟨hissued, hprocessed, hanswered⟩ := ht
  unfold completing at hissued hprocessed hanswered
  by_cases hg : g' = msg.control.barrierGroup
  · subst hg
    by_cases hne : v = msg.sender <;> constructor <;>
      simp_all [record, bump, Phase.group]
  · by_cases hne : v = msg.sender <;> constructor <;>
      simp_all [record, bump, Phase.group, Ne.symm hg]

section Complete

variable {count : List ℤ} {ts : ℤ → ℤ} {responses : List Meta}

theorem requests_complete (hres : ∀ m ∈ responses, m.request = false) (v : ℤ) :
    Barriers.requests ⟨s.record msg responses, ts, count, s.net.eraseIdx i ++ responses⟩ v =
      (s.net.eraseIdx i).filter (fun m => m.request ∧ m.sender = v) := by
  have hnone : responses.filter (fun m => m.request ∧ m.sender = v) = [] :=
    List.filter_eq_nil_iff.mpr fun m hm => by simp [hres m hm]
  unfold Barriers.requests
  rw [List.filter_append, hnone, List.append_nil]

theorem responses_complete (hmsg : s.net[i]? = some msg) (hreq : msg.request = true)
    (hres : ∀ m ∈ responses, m.request = false) (v : ℤ) :
    (Barriers.responses ⟨s.record msg responses, ts, count, s.net.eraseIdx i ++ responses⟩
      v).length = (s.responses v).length + (responses.map Meta.recver).count v := by
  unfold Barriers.responses
  rw [List.filter_append, List.length_append, filter_eraseIdx_of_neg hmsg (by simp [hreq]),
    filter_recver hres]

theorem Inv.stands_complete (h : Inv po φ s) (hmsg : s.net[i]? = some msg)
    (hreq : msg.request = true) (hres : ∀ m ∈ responses, m.request = false) {v : ℤ}
    (hφ : φ v = completing msg v) (hv : (responses.map Meta.recver).count v = 1) :
    Stands po ⟨s.record msg responses, ts, count, s.net.eraseIdx i ++ responses⟩ v
      (.answered msg.control.barrierGroup) := by
  have hs := h.stands v
  have hgroup : (φ v).group = some msg.control.barrierGroup := by
    rw [hφ, completing]
    split_ifs <;> rfl
  have hreleased : (φ v).isReleased = false ∧ (φ v).responses = 0 := by
    rw [hφ, completing]
    split_ifs <;> exact ⟨rfl, rfl⟩
  have hinside : φ v ≠ .outside := by
    intro he
    rw [he] at hgroup
    cases hgroup
  obtain ⟨b, hb, hrel⟩ := hs.flags.resolve_left fun hout => hinside hout.2
  refine ⟨hs.waiting.trans hgroup, .inr ⟨b, hb, fun _ => (hrel hinside).trans hreleased.1⟩, ?_, ?_,
    fun g' hg' => ?_, hs.small⟩
  · rw [requests_complete hres]
    by_cases hne : v = msg.sender
    · rw [hne, (h.requested hmsg hreq).2]
      rfl
    · rw [filter_eraseIdx_of_neg hmsg (by simp [Ne.symm hne])]
      have hrequests := hs.requests
      rw [hφ, completing, if_neg hne] at hrequests
      exact hrequests
  · rw [responses_complete hmsg hreq hres, hs.responses, hreleased.2, hv]
    rfl
  · have ht := hs.tallies g' hg'
    rw [hφ] at ht
    exact ht.complete (List.count_pos_iff.mp (hv ▸ Nat.one_pos))

end Complete

theorem Inv.complete {count : List ℤ} {ts : ℤ → ℤ} {responses : List Meta} (h : Inv po φ s)
    (hmsg : s.net[i]? = some msg) (hreq : msg.request = true) (hlen : count.length = 8)
    (hother : ∀ g, 0 ≤ g → g ≠ msg.control.barrierGroup → countOf count g = countOf s.count g)
    (hfull : countOf s.count msg.control.barrierGroup + 1 =
      (po.members msg.control.barrierGroup).length)
    (hcount : countOf count msg.control.barrierGroup = 0)
    (hrecvers : responses.map Meta.recver = po.members msg.control.barrierGroup)
    (hres : ∀ m ∈ responses, m.request = false ∧ m.appId = msg.appId ∧ m.control.cmd = .barrier) :
    Inv po (fun v => if v ∈ po.members msg.control.barrierGroup then
        .answered msg.control.barrierGroup else φ v)
      ⟨s.record msg responses, ts, count, s.net.eraseIdx i ++ responses⟩ := by
  have hφ := (h.requested hmsg hreq).1
  obtain ⟨⟨hpos, hle⟩, hmem, hbig⟩ := h.groups msg.sender _ (by rw [hφ]; rfl)
  have hphase := fun v => @Inv.eq_completing _ _ _ _ _ h hmsg hreq hfull v
  have hrequest : ∀ m ∈ responses, m.request = false := fun m hm => (hres m hm).1
  refine ⟨fun v => ?_, fun v g hg => ?_, fun m hm => ?_, .inr hlen, fun g hpos' hle' => ?_,
    fun g u hu v hv => ?_⟩
  · split_ifs with hv
    · refine h.stands_complete hmsg hreq hrequest (hphase v hv) ?_
      rw [hrecvers]
      exact List.count_eq_one_of_mem (po.nodup_members hpos hle) hv
    · have hne : v ≠ msg.sender := fun he => hv (he ▸ hmem)
      have hsame : s.record msg responses v = s.member v := by
        simp [record, hne, hrecvers, hv]
      refine (h.stands v).congr hsame ?_ ?_
      · rw [requests_complete hrequest]
        exact filter_eraseIdx_of_neg hmsg (by simp [Ne.symm hne])
      · rw [responses_complete hmsg hreq hrequest, hrecvers, List.count_eq_zero_of_not_mem hv,
          Nat.add_zero]
  · split_ifs at hg with hv
    · obtain rfl := Option.some.inj hg
      exact ⟨⟨hpos, hle⟩, hv, hbig⟩
    · exact h.groups v g hg
  · rcases List.mem_append.mp hm with hm | hm
    · exact h.messages m (List.mem_of_mem_eraseIdx hm)
    · obtain ⟨-, happ, hcmd⟩ := hres m hm
      exact ⟨hcmd, happ.trans (h.messages msg (List.mem_of_getElem? hmsg)).2⟩
  · by_cases hg : g = msg.control.barrierGroup
    · subst hg
      rw [hcount, List.countP_eq_zero.mpr fun v hv => by simp [hv]]
      rfl
    · rw [hother g (by omega) hg, h.count g hpos' hle']
      refine congrArg Nat.cast (List.countP_congr fun v _ => ?_)
      by_cases hv : v ∈ po.members msg.control.barrierGroup
      · have hp := hphase v hv
        rw [completing] at hp
        split_ifs at hp <;> simp [hv, hp, Ne.symm hg]
      · simp [hv]
  · have hans : ∀ w, (s.record msg responses w).answered =
        if w ∈ po.members msg.control.barrierGroup then
          bump msg.control.barrierGroup (s.member w).answered
        else (s.member w).answered := fun w => by rw [record, hrecvers]
    dsimp only
    rw [hans, hans]
    have hround := h.rounds g u hu v hv
    by_cases hg : g = msg.control.barrierGroup
    · subst hg
      simp [bump, hu, hv, hround]
    · split_ifs <;> simp [bump, hg, hround]

end Request

/-! ## Runs -/

theorem Inv.step {a : BarrierAction} (h : Inv po φ s) (ha : a.Valid po)
    (hstep : barrierStep po s a = .ok s') : ∃ φ', Inv po φ' s' := by
  cases a with
  | call node g =>
    obtain ⟨hpos, hle, hmem⟩ := ha
    unfold barrierStep at hstep
    dsimp only at hstep
    split_ifs at hstep with hwaiting
    · cases hstep
      exact ⟨φ, h⟩
    · obtain ⟨r, hr, hstep⟩ := bind_eq_ok.mp hstep
      rcases barrier_spec hr with ⟨rfl, hsmall⟩ | ⟨hbig, req, hreq, happ, hcmd, hgroup, rfl⟩
      · cases hstep
        exact ⟨φ, h.call_small hsmall⟩
      · cases hstep
        exact ⟨_, h.call (by simpa using hwaiting) hpos hle hmem hbig hreq happ hcmd hgroup⟩
  | wake node =>
    unfold barrierStep at hstep
    dsimp only at hstep
    split at hstep
    · cases hstep
      exact ⟨φ, h⟩
    · rename_i g hg
      split_ifs at hstep with hflag
      · cases hstep
        exact ⟨_, h.wake hg hflag⟩
      · cases hstep
        exact ⟨φ, h⟩
  | receive i =>
    unfold barrierStep at hstep
    dsimp only at hstep
    split at hstep
    · cases hstep
      exact ⟨φ, h⟩
    · rename_i msg hmsg
      split_ifs at hstep with hreq
      · obtain ⟨⟨count, responses⟩, hprocess, hstep⟩ := bind_eq_ok.mp hstep
        cases hstep
        obtain ⟨hlen, hother, hcases⟩ := processBarrierRequest_spec h.size hprocess
        rcases hcases with ⟨hfull, hcount, hrecvers, hres⟩ | ⟨-, hcount, rfl⟩
        · exact ⟨_, h.complete hmsg hreq hlen hother hfull hcount hrecvers hres⟩
        · dsimp only
          rw [List.append_nil]
          exact ⟨_, h.request hmsg hreq hlen hother hcount⟩
      · obtain ⟨done, hmanage, hstep⟩ := bind_eq_ok.mp hstep
        cases hstep
        obtain ⟨g, hg⟩ := h.response hmsg (by simpa using hreq) hmanage
        exact ⟨_, hg⟩

theorem inv_of_reachable (h : (barrierMachine po).Reachable (fun _ a => a.Valid po) s) :
    ∃ φ, Inv po φ s := by
  refine h.invariant (P := fun s => ∃ φ, Inv po φ s) ⟨_, inv_init po⟩ ?_
  rintro s a s' ⟨φ, hφ⟩ ha hstep
  exact hφ.step ha hstep

/-- No call returns before all members have made theirs, and the counter of a group is the number
of members that have been counted and not answered. -/
structure Safe (po : Postoffice) (s : Barriers) : Prop where
  rounds : ∀ g, 1 ≤ g → g ≤ 7 → ∀ u ∈ po.members g, ∀ v ∈ po.members g,
    (s.member v).returned g ≤ (s.member u).issued g
  count : ∀ g, 1 ≤ g → g ≤ 7 → countOf s.count g = (po.members g).countP fun v =>
    (s.member v).waiting = some g ∧ (s.member v).processed g = (s.member v).issued g ∧
      (s.member v).answered g < (s.member v).issued g

theorem Inv.safe (h : Inv po φ s) : s.Safe po := by
  refine ⟨fun g hpos hle u hu v hv => ?_, fun g hpos hle => ?_⟩
  · by_cases hbig : 1 < (po.members g).length
    · have htu := (h.stands u).tallies g hbig
      have htv := (h.stands v).tallies g hbig
      have hround := h.rounds g u hu v hv
      have hanswered : (s.member u).answered g ≤ (s.member u).issued g := by
        rw [htu.answered, htu.issued]
        cases hp : φ u <;> simp only [Phase.group] <;> split_ifs <;> simp_all
      calc (s.member v).returned g ≤ (s.member v).answered g := by
            rw [htv.answered]
            exact Nat.le_add_right _ _
        _ = (s.member u).answered g := hround.symm
        _ ≤ (s.member u).issued g := hanswered
    · obtain ⟨w, hw⟩ : ∃ w, po.members g = [w] := List.length_eq_one_iff.mp
        (le_antisymm (not_lt.mp hbig) (List.length_pos_of_mem hu))
      obtain rfl : u = v := by
        rw [hw, List.mem_singleton] at hu hv
        rw [hu, hv]
      exact ((h.stands u).small g (not_lt.mp hbig)).ge
  · rw [h.count g hpos hle]
    refine congrArg Nat.cast (List.countP_congr fun v hv => ?_)
    simp only [decide_eq_true_eq]
    rw [(h.stands v).waiting]
    constructor
    · intro hp
      have ht := (h.stands v).tallies g (h.groups v g (by rw [hp]; rfl)).2.2
      rw [hp] at ht ⊢
      refine ⟨rfl, ?_, ?_⟩
      · rw [ht.processed, ht.issued]
        simp [Phase.group]
      · rw [ht.answered, ht.issued]
        simp [Phase.group]
    · rintro ⟨hw, hp, ha⟩
      have ht := (h.stands v).tallies g (h.groups v g hw).2.2
      rw [ht.processed, ht.issued] at hp
      rw [ht.answered, ht.issued] at ha
      cases hφ : φ v <;> simp_all [Phase.group]

end Barriers

instance (po : Postoffice) : DecidablePred (BarrierAction.Valid po) := fun a => by
  cases a <;> unfold BarrierAction.Valid <;> infer_instance

/-- Barriers keep nodes together: in every state that nodes reach by calls on any groups they
belong to, in any order and with any delivery of the messages. -/
theorem barrier_safe (po : Postoffice) {s : Barriers}
    (h : (barrierMachine po).Reachable (fun _ a => a.Valid po) s) : s.Safe po := by
  obtain ⟨φ, hφ⟩ := inv_of_reachable h
  exact hφ.safe

def meetRun : List BarrierAction :=
  [.call 9 7, .call 8 7, .receive 1, .call 1 7, .receive 0, .receive 0, .receive 0, .wake 9,
    .call 9 5, .receive 2]

theorem barrier_safe_meetRun : ∃ s : Barriers,
    (barrierMachine ⟨1, 1⟩).Reachable (fun _ a => a.Valid ⟨1, 1⟩) s ∧
    (s.member 9).returned 7 = 1 ∧ (s.member 8).waiting = some 7 ∧ countOf s.count 5 = 1 ∧
    s.Safe ⟨1, 1⟩ := by
  obtain ⟨s, hs, hret, hwait, hcount⟩ := (barrierMachine ⟨1, 1⟩).exists_reachable_of_run
    (fun _ a => a.Valid ⟨1, 1⟩) meetRun (fun s => (s.member 9).returned 7 = 1 ∧
      (s.member 8).waiting = some 7 ∧ countOf s.count 5 = 1) (by decide +kernel)
  exact ⟨s, hs, hret, hwait, hcount, barrier_safe ⟨1, 1⟩ hs⟩

end Ps
