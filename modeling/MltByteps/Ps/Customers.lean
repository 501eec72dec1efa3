import MltByteps.Ps.Barrier

/-! The customers of a process: how they register, how a message waits for one of them, and
which of them a barrier response releases. -/

namespace Ps

/-- A `Customer*` that is not `nullptr`. -/
abbrev Customer := ℕ

/-- `customers_` and `barrier_done_`. -/
structure Registry where
  customers : ℤ → Option (List (ℤ × Customer))
  barrierDone : BarrierDone

namespace Registry

def empty : Registry := ⟨fun _ => none, fun _ => []⟩

/-- `map.insert(std::make_pair(key, false))` -/
def insertFlag (key : ℤ) (flags : List (ℤ × Bool)) : List (ℤ × Bool) :=
  if (flags.lookup key).isSome then flags else flags ++ [(key, false)]

def addCustomer (appId customerId : ℤ) (customer : Customer) (r : Registry) :
    Except VanFault Registry := do
  let inApp := (r.customers appId).getD []
  require .customerExists (inApp.lookup customerId = none)
  return {
    customers := Function.update r.customers appId (some (inApp ++ [(customerId, customer)]))
    barrierDone :=
      Function.update r.barrierDone appId (insertFlag customerId (r.barrierDone appId)) }

def removeCustomer (appId customerId : ℤ) (r : Registry) : Registry :=
  let inApp := ((r.customers appId).getD []).eraseP (·.1 = customerId)
  { r with
    customers := Function.update r.customers appId (if inApp = [] then none else some inApp) }

def find (appId customerId : ℤ) (r : Registry) : Option Customer :=
  (r.customers appId).bind (·.lookup customerId)

/-- The loop of `GetCustomer`; `registry i` is what poll `i` finds. `customers_in_app` is a copy,
in which a missing id yields `nullptr`. -/
def pollCustomer (registry : ℕ → Registry) (appId customerId : ℤ) : ℕ → ℕ → Option Customer
  | 0, _ => none
  | polls + 1, i =>
    match (registry i).customers appId with
    | some inApp => inApp.lookup customerId
    | none => pollCustomer registry appId customerId polls (i + 1)

def polls (timeout : ℤ) : ℕ := (timeout * 1000 + 1).toNat

/-- `timeout * 1000 + 1` can be computed in `int`. -/
def TimeoutFits (timeout : ℤ) : Prop := -2 ^ 31 ≤ timeout * 1000 ∧ timeout * 1000 + 1 < 2 ^ 31

instance (timeout : ℤ) : Decidable (TimeoutFits timeout) := inferInstanceAs (Decidable (_ ∧ _))

def getCustomer (registry : ℕ → Registry) (appId customerId timeout : ℤ) :
    Except VanFault (Option Customer) := do
  require .timeoutOverflow (TimeoutFits timeout)
  return pollCustomer registry appId customerId (polls timeout) 0

def processDataMsg (registry : ℕ → Registry) (isWorker : Bool) (msg : Meta) :
    Except VanFault Customer := do
  require .dataMeta (msg.sender ≠ kEmpty ∧ msg.recver ≠ kEmpty ∧ msg.appId ≠ kEmpty)
  let customerId := if isWorker then msg.customerId else msg.appId
  match ← getCustomer registry msg.appId customerId 5 with
  | none => .error .customerTimeout
  | some customer => .ok customer

/-! ## Waiting for a customer -/

variable {registry : ℕ → Registry} {appId customerId timeout : ℤ}

/-- The loop ends at the first poll that finds the app, whether it has the customer or not. -/
theorem pollCustomer_spec (n i : ℕ) :
    (∀ j < n, (registry (i + j)).customers appId = none) ∧
        pollCustomer registry appId customerId n i = none ∨
      ∃ j < n, ((registry (i + j)).customers appId).isSome ∧
        (∀ k < j, (registry (i + k)).customers appId = none) ∧
        pollCustomer registry appId customerId n i = (registry (i + j)).find appId customerId := by
  induction n generalizing i with
  | zero => exact .inl ⟨fun j hj => absurd hj (Nat.not_lt_zero j), rfl⟩
  | succ n ih =>
    rcases hi : (registry i).customers appId with _ | inApp
    · rw [pollCustomer, hi]
      have hshift : ∀ j, i + 1 + j = i + (j + 1) := fun j => by omega
      have hcons : ∀ {m}, (∀ k < m, (registry (i + 1 + k)).customers appId = none) →
          ∀ k < m + 1, (registry (i + k)).customers appId = none := by
        intro m hm k hk
        rcases k with _ | k
        · exact hi
        · exact hshift k ▸ hm k (Nat.lt_of_succ_lt_succ hk)
      rcases ih (i + 1) with ⟨hnone, hres⟩ | ⟨j, hj, hsome, hbefore, hres⟩
      · exact .inl ⟨hcons hnone, hres⟩
      · rw [hshift] at hsome hres
        exact .inr ⟨j + 1, Nat.succ_lt_succ hj, hsome, hcons hbefore, hres⟩
    · have hfind : (registry i).find appId customerId = inApp.lookup customerId := by
        rw [find, hi]
        rfl
      refine .inr ⟨0, Nat.succ_pos n, ?_, fun k hk => absurd hk (Nat.not_lt_zero k), ?_⟩
      · rw [Nat.add_zero, hi]
        rfl
      · rw [pollCustomer, hi]
        exact hfind.symm

/-- What a caller of `GetCustomer` expects of its result: `nullptr` only if no poll could see the
customer, and otherwise the customer that the first such poll saw. -/
structure Awaited (registry : ℕ → Registry) (appId customerId timeout : ℤ)
    (result : Option Customer) : Prop where
  absent : result = none → ∀ i < polls timeout, (registry i).find appId customerId = none
  present : ∀ c, result = some c → ∃ i < polls timeout,
    (registry i).find appId customerId = some c ∧
      ∀ j < i, (registry j).find appId customerId = none

theorem find_of_customers_none {r : Registry} (h : r.customers appId = none) :
    r.find appId customerId = none := by rw [find, h]; rfl

theorem pollCustomer_awaited_iff :
    Awaited registry appId customerId timeout
        (pollCustomer registry appId customerId (polls timeout) 0) ↔
      ∀ i < polls timeout, ((registry i).customers appId).isSome →
        (∀ j < i, (registry j).customers appId = none) →
        ((registry i).find appId customerId).isSome ∨
          ∀ j < polls timeout, (registry j).find appId customerId = none := by
  have hspec := @pollCustomer_spec registry appId customerId (polls timeout) 0
  simp only [Nat.zero_add] at hspec
  generalize pollCustomer registry appId customerId (polls timeout) 0 = result at hspec ⊢
  rcases hspec with ⟨hnone, rfl⟩ | ⟨i, hi, hsome, hbefore, rfl⟩
  · refine iff_of_true ⟨fun _ j hj => find_of_customers_none (hnone j hj), fun c hc => ?_⟩ ?_
    · cases hc
    intro j hj hsome
    rw [hnone j hj] at hsome
    cases hsome
  · constructor
    · intro h j hj hsome' hbefore'
      -- Both polls are the first one that sees the app.
      obtain rfl : j = i := by
        rcases Nat.lt_trichotomy j i with hlt | heq | hlt
        · rw [hbefore j hlt] at hsome'
          cases hsome'
        · exact heq
        · rw [hbefore' i hlt] at hsome
          cases hsome
      rcases hf : (registry j).find appId customerId with _ | c
      · exact .inr (h.absent hf)
      · exact .inl rfl
    · intro h
      refine ⟨fun hf => ?_, fun c hf => ?_⟩
      · refine (h i hi hsome hbefore).resolve_left fun hs => ?_
        rw [hf] at hs
        cases hs
      · exact ⟨i, hi, hf, fun j hj => find_of_customers_none (hbefore j hj)⟩

/-- For every evolution of the registry, `GetCustomer` waits as expected if and only if the
number of its polls is an `int` and the customer is there at the first poll that sees its app, or at
no poll. -/
theorem getCustomer_awaited_iff (registry : ℕ → Registry) (appId customerId timeout : ℤ) :
    (∃ result, getCustomer registry appId customerId timeout = .ok result ∧
        Awaited registry appId customerId timeout result) ↔
      TimeoutFits timeout ∧ ∀ i < polls timeout, ((registry i).customers appId).isSome →
        (∀ j < i, (registry j).customers appId = none) →
        ((registry i).find appId customerId).isSome ∨
          ∀ j < polls timeout, (registry j).find appId customerId = none := by
  rw [← pollCustomer_awaited_iff]
  constructor
  · rintro ⟨result, hget, hawaited⟩
    obtain ⟨hfits, hget⟩ := require_bind_eq_ok.mp hget
    cases hget
    exact ⟨hfits, hawaited⟩
  · rintro ⟨hfits, hawaited⟩
    exact ⟨_, require_bind _ hfits, hawaited⟩

/-- Customer 1 of an app registers before the first poll and customer 0 before the second one:
the wait for customer 0 is over at the first poll. -/
theorem sibling_ends_wait :
    ∃ r₀ r₁, empty.addCustomer 0 1 10 = .ok r₀ ∧ r₀.addCustomer 0 0 20 = .ok r₁ ∧
      r₁.find 0 0 = some 20 ∧
      getCustomer (fun i => if i = 0 then r₀ else r₁) 0 0 5 = .ok none ∧
      processDataMsg (fun i => if i = 0 then r₀ else r₁) true
        { sender := 8, recver := 9, appId := 0, customerId := 0 } = .error .customerTimeout :=
  ⟨_, _, rfl, rfl, rfl, rfl, rfl⟩

end Registry

/-! ## Barrier responses -/

section Flags

variable (key k : ℤ) (value : Bool) (flags : List (ℤ × Bool))

theorem getFlag_cons (x : ℤ × Bool) :
    getFlag k (x :: flags) = if k = x.1 then x.2 else getFlag k flags := by
  unfold getFlag
  rw [List.lookup_cons]
  split_ifs with h
  · rw [beq_iff_eq.mpr h]
    rfl
  · rw [beq_false_of_ne h]

theorem getFlag_setFlag :
    getFlag k (setFlag key value flags) = if k = key then value else getFlag k flags := by
  induction flags with
  | nil => rw [setFlag, getFlag_cons]
  | cons x flags ih =>
    rw [setFlag]
    split_ifs with hx h h
    · rw [getFlag_cons, if_pos h]
    · rw [getFlag_cons, getFlag_cons, hx, if_neg h, if_neg h]
    · rw [getFlag_cons, ih, if_pos h, if_neg fun hk => hx (hk.symm.trans h)]
    · rw [getFlag_cons, getFlag_cons, ih, if_neg h]

theorem getFlag_insertFlag : getFlag k (Registry.insertFlag key flags) = getFlag k flags := by
  unfold Registry.insertFlag getFlag
  split_ifs with h
  · rfl
  · rw [List.lookup_append]
    rcases flags.lookup k with _ | b
    · rw [Option.none_or, List.lookup_cons]
      cases k == key <;> rfl
    · rfl

theorem getFlag_setRange (n : ℕ) :
    getFlag k (((List.range n).map Nat.cast).foldl (fun flags c => setFlag c true flags) flags) =
      true ↔ 0 ≤ k ∧ k < n ∨ getFlag k flags = true := by
  induction n with
  | zero =>
    rw [List.range_zero, List.map_nil, List.foldl_nil, or_iff_right]
    omega
  | succ n ih =>
    rw [List.range_succ, List.map_append, List.map_singleton, List.foldl_append, List.foldl_cons,
      List.foldl_nil, getFlag_setFlag]
    split_ifs with h
    · exact iff_of_true rfl (.inl (by omega))
    · rw [ih, Nat.cast_succ]
      refine or_congr_left ?_
      omega

end Flags

/-- A process whose customers call `Barrier`; `waiting` has the calls that have not been released,
each with its customer and its group. -/
structure Process where
  registry : Registry
  waiting : List (ℤ × ℤ)

inductive ProcessAction where
  | addCustomer (appId customerId : ℤ) (customer : Customer)
  | removeCustomer (appId customerId : ℤ)
  | barrier (customerId group timestamp : ℤ)
  -- `Manage` of a message; the calls whose flags it has set return.
  | response (msg : Meta)
deriving DecidableEq

namespace Process

def step (po : Postoffice) (role : Role) (s : Process) : ProcessAction → Except VanFault Process
  | .addCustomer appId customerId customer => do
    let registry ← s.registry.addCustomer appId customerId customer
    return { s with registry }
  | .removeCustomer appId customerId =>
    .ok { s with registry := s.registry.removeCustomer appId customerId }
  | .barrier customerId group timestamp => do
    match ← po.barrier role customerId group timestamp s.registry.barrierDone with
    | none => return s
    | some (barrierDone, _) =>
      return ⟨{ s.registry with barrierDone }, (customerId, group) :: s.waiting⟩
  | .response msg => do
    let barrierDone ← manage msg s.registry.barrierDone
    return ⟨{ s.registry with barrierDone },
      s.waiting.filter fun w => getFlag w.1 (barrierDone 0) = false⟩

def machine (po : Postoffice) (role : Role) : Machine Process ProcessAction VanFault where
  init := ⟨.empty, []⟩
  step := step po role

/-- A customer that waits does not call `Barrier` again. -/
def Calls (s : Process) : ProcessAction → Prop
  | .barrier customerId _ _ => ∀ w ∈ s.waiting, w.1 ≠ customerId
  | _ => True

instance (s : Process) : DecidablePred s.Calls
  | .addCustomer _ _ _ => .isTrue trivial
  | .removeCustomer _ _ => .isTrue trivial
  | .barrier customerId _ _ => inferInstanceAs (Decidable (∀ w ∈ s.waiting, w.1 ≠ customerId))
  | .response _ => .isTrue trivial

variable {po : Postoffice} {role : Role} {s s' : Process}

def FlagsDown (s : Process) : Prop :=
  ∀ w ∈ s.waiting, getFlag w.1 (s.registry.barrierDone 0) = false

theorem FlagsDown.step {a : ProcessAction} (h : s.FlagsDown) (hstep : s.step po role a = .ok s') :
    s'.FlagsDown := by
  cases a with
  | addCustomer appId customerId customer =>
    obtain ⟨r, hadd, hstep⟩ := bind_eq_ok.mp hstep
    cases hstep
    obtain ⟨-, hadd⟩ := require_bind_eq_ok.mp hadd
    cases hadd
    intro w hw
    have hflag := h w hw
    dsimp only
    by_cases happ : appId = 0
    · subst happ
      rw [Function.update_self, getFlag_insertFlag]
      exact hflag
    · rw [Function.update_of_ne (Ne.symm happ)]
      exact hflag
  | removeCustomer appId customerId =>
    cases hstep
    exact h
  | barrier customerId group timestamp =>
    obtain ⟨r, hbarrier, hstep⟩ := bind_eq_ok.mp hstep
    rcases barrier_spec hbarrier with ⟨rfl, -⟩ | ⟨-, req, -, -, -, -, rfl⟩
    · cases hstep
      exact h
    · cases hstep
      intro w hw
      dsimp only
      rw [Function.update_self, getFlag_setFlag]
      split_ifs with heq
      · rfl
      · rcases List.mem_cons.mp hw with rfl | hw
        · exact absurd rfl heq
        · exact h w hw
  | response msg =>
    obtain ⟨done, -, hstep⟩ := bind_eq_ok.mp hstep
    cases hstep
    intro w hw
    exact of_decide_eq_true (List.mem_filter.mp hw).2

theorem flagsDown_of_reachable (h : (machine po role).Reachable Calls s) : s.FlagsDown :=
  h.invariant (P := FlagsDown) (fun _ hw => absurd hw List.not_mem_nil)
    fun _ _ _ hs _ hstep => hs.step hstep

end Process

def Postoffice.Responds (po : Postoffice) (group : ℤ) (res : Meta) : Prop :=
  ∃ role customerId timestamp done done' req shared timestamp' count count' responses,
    po.barrier role customerId group timestamp done = .ok (some (done', req)) ∧
    po.processBarrierRequest shared timestamp' req count = .ok (count', responses) ∧
    res ∈ responses

theorem Postoffice.Responds.spec {po : Postoffice} {group : ℤ} {res : Meta}
    (h : po.Responds group res) :
    res.request = false ∧ res.appId = 0 ∧ res.control.cmd = .barrier := by
  obtain ⟨role, customerId, timestamp, done, done', req, shared, timestamp', count, count',
    responses, hbarrier, hprocess, hres⟩ := h
  have happ : req.appId = 0 := by
    rcases barrier_spec hbarrier with ⟨h, -⟩ | ⟨-, req', -, happ, -, -, h⟩
    · cases h
    · cases h
      exact happ
  unfold processBarrierRequest at hprocess
  dsimp only at hprocess
  generalize (if count = [] then List.replicate 8 0 else count) = count₀ at hprocess
  obtain ⟨-, hprocess⟩ := require_bind_eq_ok.mp hprocess
  obtain ⟨ids, -, hprocess⟩ := bind_eq_ok.mp hprocess
  split_ifs at hprocess
  · cases hprocess
    obtain ⟨r, -, rfl⟩ := List.mem_map.mp hres
    exact ⟨rfl, happ, rfl⟩
  · cases hprocess
    cases hres

theorem manage_response {res : Meta} {done : BarrierDone} (hreq : res.request = false)
    (happ : res.appId = 0) (hcmd : res.control.cmd = .barrier) :
    manage res done = .ok (Function.update done 0
      (((List.range (done 0).length).map Nat.cast).foldl (fun flags c => setFlag c true flags)
        (done 0))) := by
  unfold manage
  rw [require_bind _ (by rw [hcmd]; exact Command.noConfusion), if_pos ⟨hcmd, hreq⟩, happ]
  simp only [bind_pure_comp, List.map_eq_map]
  rfl

namespace Process

/-- The calls that wait on the group can go on, and no other call can. -/
def Releases (s : Process) (group : ℤ) (done : BarrierDone) : Prop :=
  ∀ w ∈ s.waiting, (getFlag w.1 (done 0) = true ↔ w.2 = group)

/-- A response releases exactly the calls on its group if and only if they are those of the
customers that are numbered below the size of `barrier_done_[0]`. -/
theorem barrier_release_iff {po : Postoffice} {role : Role} {s : Process}
    (h : (machine po role).Reachable Calls s) {group : ℤ} {res : Meta}
    (hres : po.Responds group res) :
    ∃ done, manage res s.registry.barrierDone = .ok done ∧
      (s.Releases group done ↔ ∀ w ∈ s.waiting,
        (0 ≤ w.1 ∧ w.1 < (s.registry.barrierDone 0).length ↔ w.2 = group)) := by
  obtain ⟨hreq, happ, hcmd⟩ := hres.spec
  refine ⟨_, manage_response hreq happ hcmd, forall₂_congr fun w hw => ?_⟩
  have hdown := flagsDown_of_reachable h w hw
  rw [Function.update_self, getFlag_setRange, hdown, or_iff_left Bool.false_ne_true]

def responseSix : Meta :=
  { recver := 9, appId := 0, customerId := 0, timestamp := 5, control := { cmd := .barrier } }

theorem responds_six : (⟨2, 1⟩ : Postoffice).Responds 6 responseSix :=
  ⟨.server, 0, 3, fun _ => [], _, _, [], 5, [0, 0, 0, 0, 0, 0, 2, 0], _, _, rfl, rfl,
    List.mem_cons_self⟩

/-- Two customers meet the others a second time. -/
theorem barrier_release_iff_two :
    ∃ s, (machine ⟨2, 1⟩ .worker).Reachable Calls s ∧ s.waiting = [(1, 6), (0, 6)] ∧
      ∃ done, manage responseSix s.registry.barrierDone = .ok done ∧ s.Releases 6 done := by
  obtain ⟨s, hreach, hwaiting, hsize⟩ := Machine.exists_reachable_of_run (machine ⟨2, 1⟩ .worker)
    Calls [.addCustomer 0 0 10, .addCustomer 0 1 20, .barrier 0 6 0, .barrier 1 6 1,
      .response responseSix, .barrier 0 6 2, .barrier 1 6 3]
    (fun s => s.waiting = [(1, 6), (0, 6)] ∧ (s.registry.barrierDone 0).length = 2)
    (by decide +kernel)
  obtain ⟨done, hmanage, hiff⟩ := barrier_release_iff hreach responds_six
  refine ⟨s, hreach, hwaiting, done, hmanage, hiff.mpr ?_⟩
  rw [hwaiting, hsize]
  decide

/-- After a first barrier of customer 0 alone, customer 7 waits on all workers and servers and
customer 0 on the workers: a response for the former releases the latter instead. -/
theorem response_releases_other_group :
    (⟨2, 1⟩ : Postoffice).Responds 6 responseSix ∧
    ∃ s, (machine ⟨2, 1⟩ .worker).Reachable Calls s ∧ s.waiting = [(0, 4), (7, 6)] ∧
      (manage responseSix s.registry.barrierDone).map
        (fun done => (getFlag 7 (done 0), getFlag 0 (done 0))) = .ok (false, true) :=
  ⟨responds_six, Machine.exists_reachable_of_run (machine ⟨2, 1⟩ .worker) Calls
    [.addCustomer 0 7 10, .addCustomer 0 0 20, .barrier 0 6 0, .response responseSix,
      .barrier 7 6 1, .barrier 0 4 2] _
    (by decide +kernel)⟩

end Process

end Ps
