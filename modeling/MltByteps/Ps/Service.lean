import MltByteps.Ps.Order
import Mathlib.Data.List.Perm.Basic

/-! What happens to a well-formed request: the answers it gets are for its own slices, and the
callback of a pull puts them together. -/

namespace Ps

variable {V : Type} {cfg : Config}

structure Order (cfg : Config) (V : Type) where
  push : Bool
  kvs : KVPairs V
  callback : Option Callback
  out : Buffers V
  valid : ValidCall cfg push kvs callback out

structure Slot.Pending (o : Order cfg V) (slot : Slot V) : Prop where
  callback : slot.callback = o.callback
  out : slot.out = o.out

/-- The buffer of a pull holds a value that `P` allows for each key. -/
def Slot.Filled (o : Order cfg V) (P : ℕ → V → Prop) (slot : Slot V) : Prop :=
  o.push = false → List.Forall₂ P o.kvs.keys slot.out.vals

def Order.Answered (o : Order cfg V) (P : ℕ → V → Prop) (slices : List (Option (KVPairs V)))
    (m : Message V) : Prop :=
  o.push = false → ∃ part vals, (m.server, part) ∈ numbered slices ∧
    List.Forall₂ P part.keys vals ∧ m.data = some ⟨part.keys, vals, []⟩

/-- The answers of a pull, put in order. -/
structure Pieces (keys : List ℕ) (P : ℕ → V → Prop) (pieces : List (KVPairs V)) : Prop
    extends Covers keys pieces where
  vals : List.Forall₂ P keys (pieces.map KVPairs.vals).flatten

theorem Pieces.nil (P : ℕ → V → Prop) : Pieces [] P [] := ⟨⟨rfl, by simp⟩, .nil⟩

theorem Pieces.cons {keys keys' : List ℕ} {vals : List V} {lens : List ℤ} {P : ℕ → V → Prop}
    {pieces : List (KVPairs V)} (h : Pieces keys P pieces) (hne : keys' ≠ [])
    (hvals : List.Forall₂ P keys' vals) :
    Pieces (keys' ++ keys) P (⟨keys', vals, lens⟩ :: pieces) where
  flatten_eq := congrArg (keys' ++ ·) h.flatten_eq
  nonempty := List.forall_mem_cons.mpr ⟨hne, h.nonempty⟩
  vals := List.rel_append hvals h.vals

section Answers

variable [AddCommMonoid V] {o : Order cfg V} {P : ℕ → V → Prop} {slices : List (Option (KVPairs V))}

omit [AddCommMonoid V] in
theorem pieces_of_forall₂ {l : List (ℕ × KVPairs V)} {answers : List (Message V)}
    (h : List.Forall₂ (fun x m => x.2.keys ≠ [] ∧ ∃ vals, List.Forall₂ P x.2.keys vals ∧
      m.data = some ⟨x.2.keys, vals, []⟩) l answers) :
    Pieces ((l.map fun x => x.2.keys).flatten) P (dataOf answers) := by
  induction h with
  | nil => exact .nil P
  | cons hx _ ih =>
    obtain ⟨hne, vals, hvals, hdata⟩ := hx
    rw [List.map_cons, List.flatten_cons, dataOf, List.flatMap_cons, hdata]
    exact ih.cons hne hvals

theorem exists_pieces (hsliced : IsSliced cfg o.kvs slices) {answers : List (Message V)}
    (hpush : o.push = false) (hanswers : ∀ m ∈ answers, o.Answered P slices m)
    (hservers : (answers.map Message.server).Perm ((numbered slices).map Prod.fst)) :
    ∃ pieces, Pieces o.kvs.keys P pieces ∧ (dataOf answers).Perm pieces := by
  -- Sort the answers by the order of the slices.
  have hsame : List.Forall₂ (fun i m => i = Message.server m) (answers.map Message.server)
      answers := by
    rw [List.forall₂_map_left_iff]
    exact List.forall₂_same.mpr fun _ _ => rfl
  obtain ⟨sorted, hsorted, hperm⟩ := List.perm_comp_forall₂ hservers.symm hsame
  refine ⟨dataOf sorted, ?_, hperm.symm.flatMap_right _⟩
  rw [← hsliced.keys_eq]
  rw [List.forall₂_map_left_iff] at hsorted
  refine pieces_of_forall₂ ?_
  rw [List.forall₂_iff_get] at hsorted ⊢
  refine ⟨hsorted.1, fun i hi hi' => ?_⟩
  have hserver := hsorted.2 i hi hi'
  have hx := List.get_mem (numbered slices) ⟨i, hi⟩
  obtain ⟨part, vals, hpart, hvals, hdata⟩ :=
    hanswers _ (hperm.mem_iff.mp (List.get_mem sorted ⟨i, hi'⟩)) hpush
  rw [← hserver] at hpart
  obtain rfl : part = ((numbered slices).get ⟨i, hi⟩).2 :=
    Option.some.inj (Option.some.inj ((mem_numbered.mp hpart).symm.trans (mem_numbered.mp hx)))
  exact ⟨(hsliced.slice _ _ hx).nonempty, vals, hvals, hdata⟩

end Answers

/-! ## The callback -/

structure Slot.Ready (o : Order cfg V) (P : ℕ → V → Prop) (slot : Slot V) : Prop
    extends slot.Pending o where
  pieces : o.push = false → ∃ pieces, Pieces o.kvs.keys P pieces ∧ slot.recvKvs.Perm pieces

theorem Slot.Ready.call [Zero V] {o : Order cfg V} {P : ℕ → V → Prop} {slot : Slot V}
    (h : slot.Ready o P) (hz : cfg.isWorkerZpull = false) :
    ∃ slot', slot.runCallback cfg .call = .ok (some .erase, slot') ∧ slot'.Filled o P := by
  obtain ⟨⟨hcallback, hout⟩, hpieces⟩ := h
  obtain ⟨push, kvs, callback, out, hvalid⟩ := o
  unfold runCallback
  cases hvalid with
  | push _ _ hne =>
    refine ⟨slot, ?_, fun he => nomatch he⟩
    rw [hcallback]
    rcases callback with _ | _ | keys
    · rfl
    · rfl
    · exact absurd rfl (hne keys)
  | @pull keys vals hkeys hvals =>
    obtain ⟨pieces, hp, hperm⟩ := hpieces rfl
    have hlen := hp.vals.length_eq
    have hbuf : vals = [] ∨ vals.length = (pieces.map KVPairs.vals).flatten.length :=
      hvals.imp_right fun he => he.trans hlen
    rw [hcallback, hout, hz]
    dsimp only
    rw [hp.toCovers.pullCallback_eq hkeys.sorted (fun _ => hkeys.lt_kMaxKey) hperm hbuf, ok_bind]
    exact ⟨_, rfl, fun _ => hp.vals⟩

theorem Slot.runCallback_serves [Zero V] {o : Order cfg V} {P : ℕ → V → Prop} (slot : Slot V)
    {pc : CallbackPc} (hz : cfg.isWorkerZpull = false) (hready : pc ≠ .erase → slot.Ready o P)
    (hfilled : pc = .erase → slot.Filled o P) :
    ∃ pc' slot', slot.runCallback cfg pc = .ok (pc', slot') ∧
      (pc' = some .call ∧ slot' = slot ∨
        (pc' = some .erase ∨ pc' = none) ∧ slot'.Filled o P) := by
  cases pc with
  | find =>
    obtain ⟨⟨hcallback, -⟩, -⟩ := hready (nomatch ·)
    unfold runCallback
    dsimp only
    split_ifs with hsome
    · exact ⟨_, _, rfl, .inl ⟨rfl, rfl⟩⟩
    · refine ⟨_, _, rfl, .inr ⟨.inr rfl, fun hpush => ?_⟩⟩
      -- A pull always has a callback.
      rw [hcallback] at hsome
      obtain ⟨push, kvs, callback, out, hvalid⟩ := o
      cases hvalid with
      | push => cases hpush
      | pull => exact absurd rfl hsome
  | call =>
    obtain ⟨slot', hrun, hf⟩ := (hready (nomatch ·)).call hz
    exact ⟨_, slot', hrun, .inr ⟨.inl rfl, hf⟩⟩
  | erase => exact ⟨_, _, rfl, .inr ⟨.inr rfl, hfilled rfl⟩⟩

/-! ## The life of a well-formed request -/

namespace Request

def AtCallback (o : Order cfg V) (P : ℕ → V → Prop) (slot : Slot V) : Option CallbackPc → Prop
  | some .find => slot.Pending o
  | some .call => slot.Pending o
  | some .erase => slot.Filled o P
  | none => slot.Filled o P

structure Gathers (o : Order cfg V) (P : ℕ → V → Prop) (slices : List (Option (KVPairs V)))
    (r : Request V) : Prop where
  sliced : defaultSlicer o.kvs (getServerKeyRanges cfg.numServers) = .ok slices
  pending : r.Collecting → r.slot.Pending o
  filled : ¬r.Collecting → r.slot.Filled o P
  answers : ∀ m ∈ r.answers, o.Answered P slices m

def Accords (o : Order cfg V) (P : ℕ → V → Prop) (r : Request V) : Phase V → Prop
  | .fresh => False
  | .adding push kvs callback => push = o.push ∧ kvs = o.kvs ∧ callback = o.callback ∧
      r.slot.callback = none ∧ r.slot.out = o.out
  | .sending push kvs => push = o.push ∧ kvs = o.kvs ∧ r.slot.Pending o
  | .skipped _ _ pc => o.kvs.keys = [] ∧ AtCallback o P r.slot pc
  | .gathering push slices => push = o.push ∧ r.Gathers o P slices

/-- A request that serves a call. -/
def Serves (o : Order cfg V) (P : ℕ → V → Prop) (r : Request V) : Prop :=
  ∃ phase, r.At cfg phase ∧ Accords o P r phase

section

variable {o : Order cfg V} {P : ℕ → V → Prop} {r r' : Request V}
  {slices : List (Option (KVPairs V))}

theorem collecting_congr (hlog : Event.returned ∈ r'.slot.log ↔ Event.returned ∈ r.slot.log)
    (hr : ∀ msg, r.receiver ≠ .runCallback msg .erase)
    (hr' : ∀ msg, r'.receiver ≠ .runCallback msg .erase) : r'.Collecting ↔ r.Collecting := by
  unfold Collecting
  rw [hlog]
  exact ⟨fun h => ⟨h.1, hr⟩, fun h => ⟨h.1, hr'⟩⟩

theorem Gathering.collecting_iff {push : Bool} (h : r.Gathering cfg push slices)
    {msg : Message V} {pc : CallbackPc} (hr : r.receiver = .runCallback msg pc) :
    r.Collecting ↔ pc ≠ .erase := by
  unfold Collecting
  rw [h.log, hr]
  simp [Receiver.runs]

theorem Idle.ready (h : r.Idle) (hkeys : o.kvs.keys = []) (hpending : r.slot.Pending o) :
    r.slot.Ready o P :=
  ⟨hpending, fun _ => ⟨[], hkeys ▸ .nil P, h.recvKvs ▸ .refl _⟩⟩

theorem AtCallback.pending {slot : Slot V} {pc : CallbackPc} (h : AtCallback o P slot (some pc))
    (hpc : pc ≠ .erase) : slot.Pending o := by
  cases pc with
  | find | call => exact h
  | erase => exact absurd rfl hpc

theorem AtCallback.filled {slot : Slot V} {pc : CallbackPc} (h : AtCallback o P slot (some pc))
    (hpc : pc = .erase) : slot.Filled o P := by
  subst hpc
  exact h

variable [AddCommMonoid V]

theorem isSliced_of_eq (hs : defaultSlicer o.kvs (getServerKeyRanges cfg.numServers) = .ok slices) :
    IsSliced cfg o.kvs slices := by
  obtain ⟨slices', hs', hsliced⟩ := o.valid.sliced
  rw [hs] at hs'
  cases hs'
  exact hsliced

theorem Gathering.ready (h : r.Gathering cfg o.push slices) (hsliced : IsSliced cfg o.kvs slices)
    (hanswers : ∀ m ∈ r.answers, o.Answered P slices m) {msg : Message V} {pc : CallbackPc}
    (hr : r.receiver = .runCallback msg pc) (hpc : pc ≠ .erase) (hpending : r.slot.Pending o) :
    r.slot.Ready o P := by
  refine ⟨hpending, fun hpush => ?_⟩
  obtain ⟨hunsent, hreq, hres, hqueue⟩ := of_outstanding_one (h.last msg pc hr) (by rw [hr]; rfl)
  have hservers := h.servers
  have hdata := h.data hpush ((h.collecting_iff hr).mpr hpc)
  rw [hunsent, hreq, List.map_nil, List.map_nil, List.append_nil, List.append_nil] at hservers
  rw [hr, hqueue, hres] at hdata
  obtain ⟨pieces, hp, hperm⟩ := exists_pieces hsliced hpush hanswers hservers
  refine ⟨pieces, hp, List.Perm.trans ?_ hperm⟩
  simpa [dataOf, Receiver.unread] using hdata

theorem keys_eq_nil (hsliced : IsSliced cfg o.kvs slices)
    (hskip : slices.countP Option.isNone = slices.length) : o.kvs.keys = [] := by
  have hcount := length_numbered slices
  have hnil : numbered slices = [] := List.length_eq_zero_iff.mp (by omega)
  rw [← hsliced.keys_eq, hnil]
  rfl

/-- The answers of the servers hold values that `P` allows. -/
def Answering (cfg : Config) (P : ℕ → V → Prop) (Answers : Message V → Message V → Prop) : Prop :=
  ∀ kvs msg res part, Answers msg res → msg.push = false → msg.data = some part →
    IsSlice cfg kvs msg.server part →
    ∃ vals, List.Forall₂ P part.keys vals ∧ res.data = some ⟨part.keys, vals, []⟩

variable {Issues : Bool → KVPairs V → Option Callback → Buffers V → Prop}
  {Answers : Message V → Message V → Prop}

theorem Gathers.step (hz : cfg.isWorkerZpull = false) (hans : Answering cfg P Answers)
    (hg : r.Gathers o P slices) (h : r.Gathering cfg o.push slices)
    (hstep : Request.Step cfg Issues Answers r r') : r'.Gathers o P slices := by
  obtain ⟨hs, hpending, hfilled, hanswers⟩ := hg
  have hsliced := isSliced_of_eq hs
  have h' := h.step hstep
  -- Nothing but the receiving thread touches the slot.
  have hkeep : ∀ r' : Request V, (r'.Collecting ↔ r.Collecting) →
      r'.slot.callback = r.slot.callback → r'.slot.out = r.slot.out →
      (∀ m ∈ r'.answers, o.Answered P slices m) → r'.Gathers o P slices := by
    intro r' hcol hcallback hout ha
    refine ⟨hs, fun hc => ?_, fun hc hpush => ?_, ha⟩
    · obtain ⟨hcb, ho⟩ := hpending (hcol.mp hc)
      exact ⟨hcallback.trans hcb, hout.trans ho⟩
    · rw [hout]
      exact hfilled (fun he => hc (hcol.mpr he)) hpush
  cases hstep with
  | issue _ _ _ _ _ hnone =>
    obtain ⟨c, hc, -⟩ := h.tracker
    rw [hnone] at hc
    cases hc
  | addCallback hc | skipAll hc | slice hc | runInSend hc =>
    obtain ⟨-, -, l, hl⟩ := h.calls_loop hc
    cases hl
  | send | finish | deliver => exact hkeep _ Iff.rfl rfl rfl hanswers
  | answer hreq hmsg hres hserver _ =>
    refine hkeep _ Iff.rfl rfl rfl fun m hm => ?_
    rcases List.mem_append.mp hm with hm | hm
    · exact hanswers m hm
    · rw [List.mem_singleton.mp hm]
      intro hpush
      obtain ⟨hp, part, hpart, hdata⟩ := h.requests _ (hreq ▸ List.mem_append_cons_self)
      have hslice := hsliced.slice _ _ hpart
      rw [KVPairs.toData, if_neg hslice.nonempty] at hdata
      obtain ⟨vals, hvals, hres⟩ :=
        hans _ _ _ part hmsg (hp.trans hpush) hdata hslice
      exact ⟨part, vals, hserver ▸ hpart, hvals, hres⟩
  | pop hr _ | notLast hr | process hr | addResponse hr =>
    exact hkeep _ (collecting_congr Iff.rfl (by simp [hr]) (by simp)) rfl rfl hanswers
  | last hr _ =>
    exact hkeep _ (collecting_congr (by simp [Slot.record]) (by simp [hr]) (by simp)) rfl rfl
      hanswers
  | @runInReceiver msg pc pc' slot hr hrun =>
    have hcol := h.collecting_iff hr
    obtain ⟨pc'', slot', hrun', hcases⟩ := r.slot.runCallback_serves hz
      (fun hpc => h.ready hsliced hanswers hr hpc (hpending (hcol.mpr hpc)))
      (fun hpc => hfilled fun hc => hcol.mp hc hpc)
    rw [hrun] at hrun'
    cases hrun'
    rcases hcases with ⟨rfl, rfl⟩ | ⟨hpc', hf⟩
    · have hpc : pc ≠ .erase := fun he => absurd ((Slot.runCallback_spec hrun).2.2 he) (by simp)
      exact hkeep _ (iff_of_true ((h'.collecting_iff rfl).mpr (by simp)) (hcol.mpr hpc)) rfl
        rfl hanswers
    · refine ⟨hs, fun hc => absurd hc ?_, fun _ => hf, hanswers⟩
      rcases hpc' with rfl | rfl
      · exact fun hc => hc.2 msg rfl
      · refine fun hc => hc.1 ?_
        obtain ⟨hlog, -⟩ := Slot.runCallback_spec hrun
        rw [hlog]
        simp

theorem Idle.run_callback (hz : cfg.isWorkerZpull = false) (h : r.Idle) {pc : CallbackPc}
    (hkeys : o.kvs.keys = []) (hat : AtCallback o P r.slot (some pc)) :
    ∃ pc' slot', r.slot.runCallback cfg pc = .ok (pc', slot') ∧ AtCallback o P slot' pc' := by
  obtain ⟨pc', slot', hrun, hcases⟩ := r.slot.runCallback_serves hz
    (fun hpc => h.ready (P := P) hkeys (hat.pending hpc)) hat.filled
  refine ⟨pc', slot', hrun, ?_⟩
  rcases hcases with ⟨rfl, rfl⟩ | ⟨rfl | rfl, hf⟩
  · exact hat.pending fun he => absurd ((Slot.runCallback_spec hrun).2.2 he) (by simp)
  · exact hf
  · exact hf

theorem Serves.step (hz : cfg.isWorkerZpull = false) (hans : Answering cfg P Answers)
    (h : r.Serves o P) (hstep : Request.Step cfg Issues Answers r r') : r'.Serves o P := by
  obtain ⟨phase, h, haccords⟩ := h
  obtain ⟨phase', h', hmove⟩ := h.step hstep
  refine ⟨phase', h', ?_⟩
  cases hmove with
  | issue => exact haccords.elim
  | addCallback hcallback hout =>
    obtain ⟨hpush, hkvs, hcb, hnone, ho⟩ := haccords
    refine ⟨hpush, hkvs, ?_, hout.trans ho⟩
    rw [hcallback, hnone, Option.or_none, hcb]
  | skipAll hslices hskip hcallback hout =>
    obtain ⟨-, rfl, hpending⟩ := haccords
    exact ⟨keys_eq_nil (isSliced_of_eq hslices) hskip, hcallback.trans hpending.callback,
      hout.trans hpending.out⟩
  | slice hslices hcollecting hanswers hcallback hout =>
    obtain ⟨hpush, rfl, hpending⟩ := haccords
    exact ⟨hpush, hslices,
      fun _ => ⟨hcallback.trans hpending.callback, hout.trans hpending.out⟩,
      fun hc => absurd hcollecting hc, by simp [hanswers]⟩
  | run hrun =>
    obtain ⟨hkeys, hat⟩ := haccords
    cases h with
    | skipped hidle =>
      obtain ⟨pc', slot', hrun', hat'⟩ := hidle.run_callback hz hkeys hat
      rw [hrun] at hrun'
      cases hrun'
      exact ⟨hkeys, hat'⟩
  | gather =>
    obtain ⟨rfl, hg⟩ := haccords
    cases h with
    | gathering h => exact ⟨rfl, hg.step hz hans h hstep⟩

structure Safe (cfg : Config) (r : Request V) : Prop where
  send : ∀ push kvs, .send push kvs ∈ r.calls →
    ∃ slices, defaultSlicer kvs (getServerKeyRanges cfg.numServers) = .ok slices ∧
      IsSliced cfg kvs slices
  runInSend : ∀ pc, .runCallback pc ∈ r.calls → ∃ x, r.slot.runCallback cfg pc = .ok x
  runInReceiver : ∀ msg pc, r.receiver = .runCallback msg pc →
    ∃ x, r.slot.runCallback cfg pc = .ok x
  requests : ∀ m ∈ r.requests, ∃ part, m.data = some part ∧ part.lens = [] ∧
    (m.push = true → part.vals.length = part.keys.length)

theorem Idle.safe (h : r.Idle)
    (hsend : ∀ push kvs, .send push kvs ∈ r.calls →
      ∃ slices, defaultSlicer kvs (getServerKeyRanges cfg.numServers) = .ok slices ∧
        IsSliced cfg kvs slices)
    (hrun : ∀ pc, .runCallback pc ∈ r.calls → ∃ x, r.slot.runCallback cfg pc = .ok x) :
    r.Safe cfg where
  send := hsend
  runInSend := hrun
  runInReceiver msg pc hr := by simp [h.receiver] at hr
  requests m hm := by simp [h.requests] at hm

theorem Serves.safe (hz : cfg.isWorkerZpull = false) (h : r.Serves o P) : r.Safe cfg := by
  obtain ⟨phase, h, haccords⟩ := h
  cases h with
  | fresh => exact haccords.elim
  | adding hidle hcalls => exact hidle.safe (by simp [hcalls]) (by simp [hcalls])
  | sending hidle hcalls =>
    refine hidle.safe (fun push kvs hc => ?_) (by simp [hcalls])
    simp only [hcalls, List.mem_singleton, Call.send.injEq] at hc
    rw [hc.2, haccords.2.1]
    exact o.valid.sliced
  | skipped hidle hcalls =>
    obtain ⟨hkeys, hat⟩ := haccords
    refine hidle.safe (by simp [hcalls]) fun pc hc => ?_
    obtain rfl : _ = some pc := by simpa [hcalls] using hc
    obtain ⟨pc', slot', hrun, -⟩ := hidle.run_callback hz hkeys hat
    exact ⟨_, hrun⟩
  | gathering h =>
    obtain ⟨rfl, hs, hpending, hfilled, hanswers⟩ := haccords
    have hsliced := isSliced_of_eq hs
    have hloop : ∀ c ∈ r.calls, ∃ l, c = .loop o.push l := by
      intro c hc
      rcases h.calls with hnil | ⟨l, hl⟩
      · simp [hnil] at hc
      · exact ⟨l, by simpa [hl] using hc⟩
    refine ⟨fun push kvs hc => ?_, fun pc hc => ?_, fun msg pc hr => ?_, fun m hm => ?_⟩
    · obtain ⟨l, hl⟩ := hloop _ hc
      cases hl
    · obtain ⟨l, hl⟩ := hloop _ hc
      cases hl
    · have hcol := h.collecting_iff hr
      obtain ⟨pc', slot', hrun, -⟩ := r.slot.runCallback_serves hz
        (fun hpc => h.ready hsliced hanswers hr hpc (hpending (hcol.mpr hpc)))
        (fun hpc => hfilled fun hc => hcol.mp hc hpc)
      exact ⟨_, hrun⟩
    · obtain ⟨hpush, part, hpart, hdata⟩ := h.requests m hm
      have hslice := hsliced.slice _ _ hpart
      rw [KVPairs.toData, if_neg hslice.nonempty] at hdata
      refine ⟨part, hdata, hslice.lens, fun hp => hslice.length ?_⟩
      exact o.valid.length (hpush.symm.trans hp)

end

theorem Serves.tracker_ne {o : Order cfg V} {P : ℕ → V → Prop} {r : Request V}
    (h : r.Serves o P) : r.tracker ≠ none := by
  obtain ⟨phase, h, haccords⟩ := h
  cases h with
  | fresh => exact haccords.elim
  | adding _ _ htracker | sending _ _ htracker | skipped _ _ htracker => simp [htracker]
  | gathering h =>
    obtain ⟨c, hc, -⟩ := h.tracker
    simp [hc]

theorem Serves.filled {o : Order cfg V} {P : ℕ → V → Prop} {r : Request V} (h : r.Serves o P)
    (hdone : .returned ∈ r.slot.log ∨ r.Finished) : r.slot.Filled o P := by
  obtain ⟨phase, h, haccords⟩ := h
  cases h with
  | fresh => exact haccords.elim
  | adding _ hcalls _ hlog | sending _ hcalls _ hlog =>
    rcases hdone with hret | hfinished
    · simp [hlog] at hret
    · simp [hfinished.2.1] at hcalls
  | @skipped push slices pc _ hcalls _ hlog =>
    cases pc with
    | none => exact haccords.2
    | some pc =>
      rcases hdone with hret | hfinished
      · simp [hlog] at hret
      · simp [hfinished.2.1] at hcalls
  | gathering h =>
    refine haccords.2.filled fun hc => hc.1 ?_
    rcases hdone with hret | ⟨-, -, hzero⟩
    · exact hret
    · rw [h.log, hzero, receiver_of_outstanding_zero hzero]
      simp [Receiver.runs]

/-! ## Before the call -/

section

variable [AddCommMonoid V] {r r' : Request V} {P : ℕ → V → Prop}
  {Issues : Bool → KVPairs V → Option Callback → Buffers V → Prop}
  {Answers : Message V → Message V → Prop}

theorem Fresh.serves (h : r.Fresh) (hstep : Request.Step cfg Issues Answers r r') :
    ∃ push kvs callback out, Issues push kvs callback out ∧
      ∀ hvalid : ValidCall cfg push kvs callback out,
        r'.Serves ⟨push, kvs, callback, out, hvalid⟩ P := by
  obtain ⟨push, kvs, callback, out, hissue, hcallback, hout, hat⟩ := h.step hstep
  exact ⟨push, kvs, callback, out, hissue, fun _ => ⟨_, hat, rfl, rfl, rfl, hcallback, hout⟩⟩

theorem Fresh.safe (h : r.Fresh) : r.Safe cfg where
  send := by simp [h.calls]
  runInSend := by simp [h.calls]
  runInReceiver := by simp [h.receiver]
  requests := by simp [h.requests]

end

end Request

end Ps
