import MltByteps.Ps.Barrier
import MltByteps.Ps.Delivery

/-! The barrier at the end of `Postoffice::Start` when vans resend messages. The receiving thread of
the scheduler sets `ready_` and goes on to handle messages; its starting thread finds `ready_` set
and creates the resender some time later. -/

namespace Ps

/-- The group of the barrier in `Postoffice::Start`. -/
def startGroup : ℤ := kWorkerGroup + kServerGroup + kScheduler

/-- `responses` are those that the scheduler has still to send. The last three fields are
histories: the nodes that have called `Barrier`, the senders of the requests for which
`barrier_count_` was incremented, and whether a response was due. -/
structure StartUp where
  net : Network
  ready : Bool
  timestamp : ℤ → ℤ
  count : List ℤ
  responses : List Meta
  entered : List ℤ
  counted : List ℤ
  released : Bool

inductive StartAction where
  -- The scheduler has sent the nodes to everyone and sets `ready_`.
  | ready
  -- The starting thread of a node goes on and creates the resender.
  | start (node : ℤ)
  -- `Postoffice::Start` of a node calls `Barrier`.
  | barrier (node : ℤ)
  -- The receiving thread of the scheduler sends the next response.
  | respond
  | net (a : NetAction)

def Meta.isBarrierRequest (m : Meta) : Bool := m.control.cmd = .barrier ∧ m.request = true

namespace StartUp

variable (po : Postoffice)

/-- The vans have sent some messages before, so their timestamps are arbitrary. -/
def init (timestamp : ℤ → ℤ) : StartUp := ⟨.init, false, timestamp, [], [], [], [], false⟩

def handle (msgs : List Meta) (s : StartUp) : Except VanFault StartUp :=
  match msgs with
  | [] => .ok s
  | msg :: _ =>
    if msg.isBarrierRequest then do
      let (count, responses) ←
        po.processBarrierRequest [] (s.timestamp kScheduler) msg s.count
      return { s with
        count
        responses := s.responses ++ responses
        timestamp := Function.update s.timestamp kScheduler
          (s.timestamp kScheduler + responses.length)
        counted := s.counted ++ [msg.sender]
        released := s.released || !responses.isEmpty }
    else .ok s

def step (s : StartUp) : StartAction → Except VanFault StartUp
  | .ready => .ok { s with ready := true }
  | .start node => do
    let net ← s.net.step (.create node)
    return { s with net }
  | .barrier node => do
    -- Which customers wait plays no role here.
    let call ← po.barrier (roleOf node) 0 startGroup (s.timestamp node) fun _ => []
    let s := { s with entered := s.entered ++ [node] }
    match call with
    | none => return s
    | some (_, req) =>
      let net ← s.net.step (.send node req)
      return { s with net, timestamp := Function.update s.timestamp node (s.timestamp node + 1) }
  | .respond =>
    match s.responses with
    | [] => .ok s
    | res :: responses => do
      let net ← s.net.step (.send kScheduler res)
      return { s with net, responses }
  | .net a => do
    let net ← s.net.step a
    handle po ((net.endpoint kScheduler).passed.drop (s.net.endpoint kScheduler).passed.length)
      { s with net }

end StartUp

def startUp (po : Postoffice) (timestamp : ℤ → ℤ) : Machine StartUp StartAction VanFault :=
  ⟨.init timestamp, StartUp.step po⟩

/-- Every node creates its resender after `ready_` is set, and calls `Barrier` once after that. The
receiving thread of the scheduler sends its responses before it receives again. -/
def StartAction.Valid (po : Postoffice) (s : StartUp) : StartAction → Prop
  | .ready => True
  | .start node => s.ready = true ∧ node ∈ po.members startGroup
  | .barrier node => node ∈ po.members startGroup ∧ node ∉ s.entered ∧
      (s.net.endpoint node).resender.isSome
  | .respond => True
  | .net (.receive i) => ∀ msg ∈ s.net.net[i]?, msg.recver = kScheduler → s.responses = []
  | .net (.create _) | .net (.send _ _) | .net (.stop _) => False
  | .net _ => True

/-- The scheduler has its resender when it handles a request. -/
def StartAction.Guarded (s : StartUp) : StartAction → Prop
  | .net (.receive i) => ∀ msg ∈ s.net.net[i]?, msg.recver = kScheduler →
      msg.isBarrierRequest = true → (s.net.endpoint kScheduler).resender.isSome
  | _ => True

instance (po : Postoffice) (s : StartUp) : DecidablePred (StartAction.Valid po s)
  | .ready | .respond => .isTrue trivial
  | .start _ | .barrier _ => inferInstanceAs (Decidable (_ ∧ _))
  | .net (.receive i) => inferInstanceAs (Decidable (∀ msg ∈ s.net.net[i]?,
      msg.recver = kScheduler → s.responses = []))
  | .net (.create _) | .net (.send _ _) | .net (.stop _) => .isFalse id
  | .net (.addOutgoing _ _) | .net (.timeout _ _) | .net (.resend _ _) | .net (.sendAck _ _)
  | .net (.lose _) | .net (.duplicate _) => .isTrue trivial

instance (s : StartUp) : DecidablePred (StartAction.Guarded s)
  | .net (.receive i) => inferInstanceAs (Decidable (∀ msg ∈ s.net.net[i]?,
      msg.recver = kScheduler → msg.isBarrierRequest = true →
        (s.net.endpoint kScheduler).resender.isSome))
  | .ready | .respond | .start _ | .barrier _ | .net (.create _) | .net (.send _ _)
  | .net (.stop _) | .net (.addOutgoing _ _) | .net (.timeout _ _) | .net (.resend _ _)
  | .net (.sendAck _ _) | .net (.lose _) | .net (.duplicate _) => .isTrue trivial

/-- No call is counted twice, and nobody is released before all have entered. -/
structure StartUp.Safe (po : Postoffice) (s : StartUp) : Prop where
  once : s.counted.Nodup
  released : s.released = true → ∀ v ∈ po.members startGroup, v ∈ s.entered

/-! ## The invariant -/

namespace StartUp

variable {po : Postoffice} {s s' : StartUp}

def requests (s : StartUp) : List (ℤ × Meta) := s.net.sent.filter (·.2.isBarrierRequest)

def handled (s : StartUp) : List Meta :=
  (s.net.endpoint kScheduler).passed.filter Meta.isBarrierRequest

structure Traffic (po : Postoffice) (s : StartUp) : Prop where
  genuine : s.net.Genuine
  once : (s.net.endpoint kScheduler).Once Meta.isBarrierRequest kScheduler
  callers : (s.requests.map Prod.fst).Nodup
  request : ∀ x ∈ s.requests, (x.1 ∈ s.entered ∧ x.1 ∈ po.members startGroup) ∧
    x.2.control.barrierGroup = startGroup
  responses : ∀ res ∈ s.responses, res.isBarrierRequest = false

structure Inv (po : Postoffice) (s : StartUp) : Prop extends s.Traffic po where
  counted : s.counted = s.handled.map Meta.sender
  size : s.count = [] ∨ s.count.length = 8
  tally : if s.released then s.counted.length = (po.members startGroup).length
    else countOf s.count startGroup = s.counted.length

theorem isBarrierRequest_iff {m : Meta} :
    m.isBarrierRequest = true ↔ m.control.cmd = .barrier ∧ m.request = true := decide_eq_true_iff

theorem exists_request_of_known {m : Meta} (h : Known s.net.sent m)
    (hm : m.isBarrierRequest = true) :
    ∃ x ∈ s.requests, m = x.2.from x.1 := by
  have hcmd := (isBarrierRequest_iff.mp hm).1
  rcases h with hterm | hack | ⟨x, hx, rfl⟩
  · rw [hcmd] at hterm
    exact nomatch hterm
  · rw [hcmd] at hack
    exact nomatch hack
  · exact ⟨x, List.mem_filter.mpr ⟨hx, hm⟩, rfl⟩

theorem Traffic.exists_request (h : s.Traffic po) {m : Meta} (hm : m ∈ s.handled) :
    ∃ x ∈ s.requests, m = x.2.from x.1 := by
  obtain ⟨hm, hreq⟩ := List.mem_filter.mp hm
  exact exists_request_of_known ((h.genuine.endpoint _).passed m hm).1 hreq

theorem Traffic.nodup (h : s.Traffic po) : (s.handled.map Meta.sender).Nodup := by
  refine List.Nodup.map_on (fun m hm m' hm' hsender => ?_) h.once.once.of_map
  obtain ⟨x, hx, rfl⟩ := h.exists_request hm
  obtain ⟨x', hx', rfl⟩ := h.exists_request hm'
  rw [List.inj_on_of_nodup_map h.callers hx hx' hsender]

theorem Traffic.subset (h : s.Traffic po) :
    ∀ v ∈ s.handled.map Meta.sender, v ∈ s.entered ∧ v ∈ po.members startGroup := by
  intro v hv
  obtain ⟨m, hm, rfl⟩ := List.mem_map.mp hv
  obtain ⟨x, hx, rfl⟩ := h.exists_request hm
  exact (h.request x hx).1

theorem Traffic.subperm (h : s.Traffic po) :
    List.Subperm (s.handled.map Meta.sender) (po.members startGroup) :=
  List.subperm_of_subset h.nodup fun v hv => (h.subset v hv).2

theorem Inv.safe (h : s.Inv po) : s.Safe po where
  once := by
    rw [h.counted]
    exact h.nodup
  released hrel v hv := by
    have htally := h.tally
    rw [if_pos hrel, h.counted] at htally
    have hperm := h.subperm.perm_of_length_le htally.ge
    exact (h.subset v (hperm.mem_iff.mpr hv)).1

theorem inv_init (timestamp : ℤ → ℤ) : (init timestamp).Inv po where
  genuine := Network.genuine_init
  once := Endpoint.once_init _ _
  callers := List.nodup_nil
  request _ h := nomatch h
  responses _ h := nomatch h
  counted := rfl
  size := .inl rfl
  tally := rfl

/-! ## Steps -/

theorem Traffic.effect (h : s.Traffic po) {a : NetAction} {net : Network}
    (hs : s.net.Effect a net) (ha : s.net.Guarded Meta.isBarrierRequest kScheduler a)
    (hsent : net.sent.filter (·.2.isBarrierRequest) = s.requests) :
    Traffic po { s with net } where
  genuine := h.genuine.effect hs
  once := Network.once_of_effect h.once (fun m hm hterm => by
    rw [(isBarrierRequest_iff.mp hm).1] at hterm
    exact nomatch hterm) ha hs
  callers := by
    unfold requests
    rw [hsent]
    exact h.callers
  request := by
    unfold requests
    rw [hsent]
    exact h.request
  responses := h.responses

theorem Inv.effect (h : s.Inv po) {a : NetAction} {net : Network} {responses : List Meta}
    (hs : s.net.Effect a net) (ha : s.net.Guarded Meta.isBarrierRequest kScheduler a)
    (hsent : net.sent.filter (·.2.isBarrierRequest) = s.requests)
    (hpassed : (net.endpoint kScheduler).passed = (s.net.endpoint kScheduler).passed)
    (hres : ∀ res ∈ responses, res.isBarrierRequest = false) :
    Inv po { s with net, responses } := by
  have ht := h.toTraffic.effect hs ha hsent
  refine ⟨⟨ht.genuine, ht.once, ht.callers, ht.request, hres⟩, ?_, h.size, h.tally⟩
  change s.counted = ((net.endpoint kScheduler).passed.filter _).map _
  rw [hpassed]
  exact h.counted

theorem Inv.count (h : s.Inv po) {msg : Meta} {net : Network} {count : List ℤ}
    {responses : List Meta} {timestamp : ℤ → ℤ}
    (ht : Traffic po { s with net }) (hreq : msg.isBarrierRequest = true)
    (hpassed : (net.endpoint kScheduler).passed = (s.net.endpoint kScheduler).passed ++ [msg])
    (hp : po.processBarrierRequest [] (s.timestamp kScheduler) msg s.count =
      .ok (count, responses)) :
    Inv po { s with
      net, count, timestamp
      responses := s.responses ++ responses
      counted := s.counted ++ [msg.sender]
      released := s.released || !responses.isEmpty } := by
  have hhandled : handled { s with net } = s.handled ++ [msg] := by
    unfold handled
    rw [hpassed, List.filter_append, List.filter_cons_of_pos hreq, List.filter_nil]
  have hcounted : s.counted ++ [msg.sender] = (handled { s with net }).map Meta.sender := by
    rw [hhandled, List.map_append, ← h.counted]
    rfl
  have hgroup : msg.control.barrierGroup = startGroup := by
    obtain ⟨x, hx, rfl⟩ := ht.exists_request (m := msg) (by rw [hhandled]; simp)
    exact (ht.request x hx).2
  have hle := ht.subperm.length_le
  rw [← hcounted, List.length_append, List.length_singleton] at hle
  -- A request after the release would be one more than there are nodes.
  have hrel : s.released = false := by
    by_contra hrel
    have htally := h.tally
    rw [if_pos (by simpa using hrel)] at htally
    omega
  have htally := h.tally
  rw [hrel, if_neg Bool.false_ne_true] at htally
  obtain ⟨hsize, -, hcase⟩ := processBarrierRequest_spec h.size hp
  rw [hgroup] at hcase
  have hres : ∀ res ∈ responses, res.isBarrierRequest = false := by
    intro res hmem
    rcases hcase with ⟨-, -, -, hres⟩ | ⟨-, -, rfl⟩
    · simp [Meta.isBarrierRequest, (hres res hmem).1]
    · exact nomatch hmem
  refine ⟨⟨ht.genuine, ht.once, ht.callers, ht.request,
    List.forall_mem_append.mpr ⟨h.responses, hres⟩⟩, hcounted, .inr hsize, ?_⟩
  dsimp only
  rw [hrel, Bool.false_or, List.length_append, List.length_singleton]
  rcases hcase with ⟨hlen, -, hrecv, -⟩ | ⟨-, hcount, rfl⟩
  · have hne : responses ≠ [] := by
      rintro rfl
      rw [← hrecv, List.map_nil, List.length_nil] at hlen
      omega
    rw [if_pos (by simpa using hne)]
    omega
  · rw [if_neg (by simp), hcount]
    omega

theorem guarded_of_ne {a : NetAction} (h : ∀ i, a ≠ .receive i) :
    s.net.Guarded Meta.isBarrierRequest kScheduler a := fun i _ ha => absurd ha (h i)

theorem passed_eq_of_ne {a : NetAction} {net : Network} (hs : s.net.Effect a net)
    (h : ∀ i, a ≠ .receive i) :
    (net.endpoint kScheduler).passed = (s.net.endpoint kScheduler).passed :=
  (Network.passed_cases hs _).resolve_right fun ⟨i, _, ha, _⟩ => h i ha

theorem Inv.barrier (h : s.Inv po) {node : ℤ} {req : Meta} {net : Network} {timestamp : ℤ → ℤ}
    (hnode : node ∈ po.members startGroup) (hnew : node ∉ s.entered)
    (hreq : req.control.barrierGroup = startGroup) (hs : s.net.step (.send node req) = .ok net)
    (hisReq : req.isBarrierRequest = true) :
    Inv po { s with net, timestamp, entered := s.entered ++ [node] } := by
  have heff := Network.effect_of_step hs
  have hpassed := passed_eq_of_ne heff fun _ => nofun
  have hrequests : net.sent.filter (·.2.isBarrierRequest) = s.requests ++ [(node, req)] := by
    cases hs
    simp [requests, hisReq]
  have honce := Network.once_of_effect h.once (fun m hm hterm => by
    rw [(isBarrierRequest_iff.mp hm).1] at hterm
    exact nomatch hterm) (guarded_of_ne (a := .send node req) fun _ => nofun) heff
  refine ⟨⟨h.genuine.effect heff, honce, ?_, ?_, h.responses⟩, ?_, h.size, h.tally⟩
  · unfold requests
    rw [hrequests, List.map_append]
    refine Lists.nodup_append_singleton h.callers fun hv => ?_
    obtain ⟨x, hx, hnode⟩ := List.mem_map.mp hv
    rw [show node = x.1 from hnode.symm] at hnew
    exact hnew (h.request x hx).1.1
  · unfold requests
    rw [hrequests]
    refine List.forall_mem_append.mpr ⟨fun x hx => ?_, fun x hx => ?_⟩
    · obtain ⟨⟨hentered, hmem⟩, hgroup⟩ := h.request x hx
      exact ⟨⟨List.mem_append_left _ hentered, hmem⟩, hgroup⟩
    · rw [List.mem_singleton.mp hx]
      exact ⟨⟨List.mem_append_right _ (List.mem_singleton_self _), hnode⟩, hreq⟩
  · change s.counted = ((net.endpoint kScheduler).passed.filter _).map _
    rw [hpassed]
    exact h.counted

theorem Inv.net (h : s.Inv po) {a : NetAction} (ha : (StartAction.net a).Valid po s)
    (hg : (StartAction.net a).Guarded s) (hs : step po s (.net a) = .ok s') : s'.Inv po := by
  obtain ⟨net, hnet, hhandle⟩ := bind_eq_ok.mp hs
  clear hs
  have heff := Network.effect_of_step hnet
  have hguard : s.net.Guarded Meta.isBarrierRequest kScheduler a := by
    rintro i msg rfl hi hrecver hreq
    exact hg msg hi hrecver hreq
  have hsent : net.sent = s.net.sent := by
    rcases Network.sent_cases heff with hsent | ⟨node, msg, rfl, -⟩
    · exact hsent
    · exact ha.elim
  have hfilter : net.sent.filter (·.2.isBarrierRequest) = s.requests := by rw [hsent]; rfl
  rcases Network.passed_cases heff kScheduler with hpassed | ⟨i, msg, rfl, hi, hrecver, hpassed⟩
  · rw [hpassed, List.drop_length] at hhandle
    cases hhandle
    exact h.effect heff hguard hfilter hpassed h.responses
  · rw [hpassed, List.drop_left] at hhandle
    unfold handle at hhandle
    dsimp only at hhandle
    split_ifs at hhandle with hreq
    · obtain ⟨⟨count, responses⟩, hp, hs⟩ := bind_eq_ok.mp hhandle
      cases hs
      exact h.count (h.toTraffic.effect heff hguard hfilter) hreq hpassed hp
    · cases hhandle
      have ht := h.toTraffic.effect heff hguard hfilter
      refine ⟨ht, ?_, h.size, h.tally⟩
      change s.counted = ((net.endpoint kScheduler).passed.filter _).map _
      rw [hpassed, List.filter_append, List.filter_cons_of_neg hreq, List.filter_nil,
        List.append_nil]
      exact h.counted

theorem Inv.step (h : s.Inv po) {a : StartAction} (ha : a.Valid po s) (hg : a.Guarded s)
    (hs : StartUp.step po s a = .ok s') : s'.Inv po := by
  cases a with
  | ready =>
    cases hs
    exact ⟨⟨h.genuine, h.once, h.callers, h.request, h.responses⟩, h.counted, h.size, h.tally⟩
  | start node =>
    obtain ⟨net, hnet, hs⟩ := bind_eq_ok.mp hs
    cases hs
    have heff := Network.effect_of_step hnet
    refine h.effect heff (guarded_of_ne fun _ => nofun) ?_ (passed_eq_of_ne heff fun _ => nofun)
      h.responses
    cases hnet
    rfl
  | barrier node =>
    obtain ⟨hnode, hnew, -⟩ := ha
    obtain ⟨call, hcall, hs⟩ := bind_eq_ok.mp hs
    rcases barrier_spec hcall with ⟨rfl, -⟩ | ⟨-, req, hreq, -, hcmd, hgroup, rfl⟩
    · cases hs
      refine ⟨⟨h.genuine, h.once, h.callers, fun x hx => ?_, h.responses⟩, h.counted, h.size,
        h.tally⟩
      obtain ⟨⟨hentered, hmem⟩, hxgroup⟩ := h.request x hx
      exact ⟨⟨List.mem_append_left _ hentered, hmem⟩, hxgroup⟩
    · obtain ⟨net, hnet, hs⟩ := bind_eq_ok.mp hs
      cases hs
      exact h.barrier hnode hnew hgroup hnet (isBarrierRequest_iff.mpr ⟨hcmd, hreq⟩)
  | respond =>
    rw [StartUp.step] at hs
    split at hs
    · cases hs
      exact h
    · rename_i res responses hres
      obtain ⟨net, hnet, hs⟩ := bind_eq_ok.mp hs
      cases hs
      have heff := Network.effect_of_step hnet
      have hall := h.responses
      rw [hres] at hall
      refine h.effect heff (guarded_of_ne fun _ => nofun) ?_ (passed_eq_of_ne heff fun _ => nofun)
        fun res' hmem => hall res' (List.mem_cons_of_mem _ hmem)
      cases hnet
      simp [requests, hall res (List.mem_cons_self ..)]
  | net a => exact h.net ha hg hs

end StartUp

/-- In every run in which the scheduler has its resender whenever it handles a request. -/
theorem startUp_safe (po : Postoffice) (timestamp : ℤ → ℤ) {s : StartUp}
    (h : (startUp po timestamp).Reachable (fun s a => a.Valid po s ∧ a.Guarded s) s) :
    s.Safe po :=
  (h.invariant (P := StartUp.Inv po) (StartUp.inv_init timestamp) fun _ _ _ h ha hs =>
    h.step ha.1 ha.2 hs).safe

/-- The scheduler has its resender in time. A copy of the request of the worker is dropped, and
the barrier is released when all three have entered. -/
def guardedRun : List StartAction :=
  [.ready, .start 1, .start 8, .start 9, .barrier 9, .net (.addOutgoing 9 0), .net (.duplicate 0),
    .net (.receive 0), .net (.receive 0), .barrier 8, .net (.receive 0), .barrier 1,
    .net (.receive 0), .respond]

theorem startUp_safe_guardedRun : ∃ s : StartUp,
    (startUp ⟨1, 1⟩ fun _ => 0).Reachable (fun s a => a.Valid ⟨1, 1⟩ s ∧ a.Guarded s) s ∧
    s.counted = [9, 8, 1] ∧ s.released = true ∧ s.Safe ⟨1, 1⟩ := by
  obtain ⟨s, hs, hcounted, hreleased⟩ := (startUp ⟨1, 1⟩ fun _ => 0).exists_reachable_of_run
    (fun s a => a.Valid ⟨1, 1⟩ s ∧ a.Guarded s) guardedRun
    (fun s => s.counted = [9, 8, 1] ∧ s.released = true) (by decide +kernel)
  exact ⟨s, hs, hcounted, hreleased, startUp_safe _ _ hs⟩

/-- The scheduler handles the request of the worker before it has a resender. The worker gets no
ACK and sends the request again, and the copy is counted too. -/
def earlyRun : List StartAction :=
  [.ready, .start 9, .barrier 9, .net (.addOutgoing 9 0), .net (.receive 0), .start 8, .barrier 8,
    .net (.receive 0),
    .net (.timeout 9 (keyBits 9 { recver := 1, appId := 0, timestamp := 0, request := true })),
    .net (.resend 9 0), .start 1, .net (.receive 0)]

theorem earlyRun_releases : ∃ s : StartUp,
    (startUp ⟨1, 1⟩ fun _ => 0).Reachable (fun s a => a.Valid ⟨1, 1⟩ s) s ∧
    s.counted = [9, 8, 9] ∧ s.released = true ∧ kScheduler ∈ Postoffice.members ⟨1, 1⟩ startGroup ∧
    kScheduler ∉ s.entered :=
  (startUp ⟨1, 1⟩ fun _ => 0).exists_reachable_of_run (fun s a => a.Valid ⟨1, 1⟩ s) earlyRun
    (fun s => s.counted = [9, 8, 9] ∧ s.released = true ∧
      kScheduler ∈ Postoffice.members ⟨1, 1⟩ startGroup ∧ kScheduler ∉ s.entered)
    (by decide +kernel)

end Ps
