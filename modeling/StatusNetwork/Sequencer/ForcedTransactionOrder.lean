import StatusNetwork.Sequencer.ForcedTransactionPool

/-!
# Every forced transaction is settled once, in order

The import of a block only ever takes the head off the queue (`Fifo`). A rejection it finalises was
noted by an attempt for the number of the block (`Justified`), and ends the import (`Settled`).
-/

namespace StatusNetwork.Sequencer.ForcedTransactionPool

-- The queue

structure Fifo (s : Pool) : Prop where
  order : s.resolved.map Resolution.ftx ++ s.pendingQueue.map Node.ftx = s.added
  sorted : s.pendingQueue.Pairwise (·.id < ·.id)
  fresh : ∀ n ∈ s.pendingQueue, n.id < s.nextId
  /-- The iterator of an import points at the head of the queue. -/
  head : ∀ i ∈ s.importing, ∀ ref n, i.progress = .settling ref (some n) →
    s.pendingQueue.head? = some n

/-- Building leaves alone the queue and what is settled. -/
structure Kept (s s' : Pool) : Prop where
  pendingQueue : s'.pendingQueue = s.pendingQueue
  nextId : s'.nextId = s.nextId
  importing : s'.importing = s.importing
  resolved : s'.resolved = s.resolved
  added : s'.added = s.added
  imported : s'.imported = s.imported

theorem Kept.refl (s : Pool) : Kept s s := by constructor <;> rfl

theorem Fifo.kept (h : Fifo s) (hk : Kept s s') : Fifo s' := by
  obtain ⟨hq, hid, hi, hr, ha, -⟩ := hk
  constructor
  · rw [hr, hq, ha]
    exact h.order
  · rw [hq]
    exact h.sorted
  · rw [hq, hid]
    exact h.fresh
  · rw [hq, hi]
    exact h.head

namespace Pool

theorem evaluated_kept (s : Pool) (blockNumber index : Nat) (ftx : ForcedTransaction) :
    Kept s (s.evaluated blockNumber index ftx) := by
  unfold evaluated
  split
  · constructor <;> rfl
  · exact .refl s

theorem evaluate_kept : Kept s (s.evaluate blockNumber ref n index result).1 := by
  have h := s.evaluated_kept blockNumber index n.ftx
  unfold evaluate
  dsimp only
  split
  · exact h
  · split
    · exact { h with }
    · exact h

theorem build_kept (h : s.build a result = some (s', p)) : Kept s s' := by
  unfold build at h
  split at h
  · simp only [computeIfAbsent] at h
    split at h <;> cases h
    · exact .refl s
    · constructor <;> rfl
  · cases h
    exact .refl s'
  · cases h
    exact .refl s'
  · rw [show s' = _ from (congrArg Prod.fst (Option.some.inj h)).symm]
    exact evaluate_kept
  · cases h

end Pool

theorem Fifo.pop (h : Fifo s) (hhead : s.pendingQueue.head? = some n) :
    ∃ rest, s.pendingQueue = n :: rest ∧ s.pendingQueue.filter (·.id ≠ n.id) = rest ∧
      s.succ n = rest.head? := by
  obtain ⟨rest, hq⟩ := List.head?_eq_some_iff.mp hhead
  have hlt : ∀ m ∈ rest, n.id < m.id := by
    have := h.sorted
    rw [hq, List.pairwise_cons] at this
    exact this.1
  refine ⟨rest, hq, ?_, ?_⟩
  · rw [hq, List.filter_cons_of_neg (by simp), List.filter_eq_self]
    intro m hm
    simpa using Nat.ne_of_gt (hlt m hm)
  · rw [Pool.succ, hq, List.find?_cons_of_neg (by simp)]
    cases rest with
    | nil => rfl
    | cons m _ => simp [hlt m (by simp)]

theorem Fifo.recordStatus (h : Fifo s) (hhead : s.pendingQueue.head? = some n)
    (himp : ∀ j ∈ imp, ∀ ref m, j.progress = .settling ref (some m) → s.succ n = some m) :
    Fifo { s.recordStatus i n result with importing := imp } := by
  obtain ⟨rest, hq, hfilter, hsucc⟩ := h.pop hhead
  have hsorted := h.sorted
  have horder := h.order
  have hfresh := h.fresh
  rw [hq] at hsorted horder hfresh
  have hqueue : (s.recordStatus i n result).pendingQueue = rest := hfilter
  constructor
  · rw [hqueue]
    simpa [Pool.recordStatus] using horder
  · simpa [hqueue] using hsorted.of_cons
  · rw [hqueue]
    exact fun m hm => hfresh m (List.mem_cons_of_mem n hm)
  · simpa [hqueue, ← hsucc] using himp

theorem Fifo.settle (h : Fifo s) (hi : s.importing = some i) : Fifo (s.settle i) := by
  unfold Pool.settle
  split
  iterate 4
    · exact { h with head := by simp }
  · rename_i ref n hp
    have hhead := h.head i hi ref n hp
    unfold Pool.settleNode
    split
    · exact h.recordStatus hhead (by simp)
    · split
      · exact h.recordStatus hhead (by simp)
      · exact { h with head := by simp }

theorem Fifo.addLast (h : Fifo s) : Fifo (s.addLast ftx) := by
  constructor
  · simp [Pool.addLast, ← h.order]
  · have hlast : ∀ m ∈ s.pendingQueue, m.id < s.nextId := h.fresh
    simpa [Pool.addLast, List.pairwise_append, h.sorted] using hlast
  · intro n hn
    simp only [Pool.addLast, List.mem_append, List.mem_singleton] at hn ⊢
    obtain hn | rfl := hn
    · exact Nat.lt_succ_of_lt (h.fresh n hn)
    · exact Nat.lt_succ_self _
  · intro i hi ref n hp
    have := h.head i hi ref n hp
    simp [Pool.addLast, List.head?_append, this]

-- The tentative rejections

def Building.ref : Building → Option Nat
  | .opened ref | .evaluating ref _ _ => some ref
  | .started | .finished => none

def Building.next : Building → Option Node
  | .evaluating _ next _ => next
  | _ => none

def Importing.ref : Importing → Option Nat
  | .opened ref | .settling ref _ => ref
  | .started | .cleaned => none

/-- A reference to the rejections of a block number. -/
def Refers (s : Pool) (ref blockNumber : Nat) : Prop :=
  ∃ m, s.rejections[ref]? = some m ∧ m.blockNumber = blockNumber

structure Justified (s : Pool) : Prop where
  noted : ∀ m ∈ s.rejections, ∀ k, ∀ r ∈ m.get k, r.inclusionResult ≠ .included ∧
    ∃ ftx, (m.blockNumber, ftx) ∈ s.evaluatedFirst ∧ ftx.forcedTransactionNumber = k
  byBlock : ∀ bn, ∀ ref ∈ s.tentativeRejectionsByBlock bn, Refers s ref bn
  building : ∀ a ∈ s.attempts, ∀ ref ∈ a.progress.ref, Refers s ref a.blockNumber
  importing : ∀ i ∈ s.importing, ∀ ref ∈ i.progress.ref, Refers s ref i.block.number
  iterators : ∀ a ∈ s.attempts, ∀ n ∈ a.progress.next, n.ftx ∈ s.added
  evaluated : ∀ e ∈ s.evaluatedFirst, e.2 ∈ s.added

theorem mapToInclusionResult_ne_included : mapToInclusionResult r ≠ .included := by
  unfold mapToInclusionResult
  (repeat' split) <;> simp

/-- Rejections are only ever added. -/
structure Notes (s s' : Pool) : Prop where
  grows : s.evaluatedFirst ⊆ s'.evaluatedFirst
  refers : Refers s ref bn → Refers s' ref bn
  byBlock : ∀ bn, ∀ ref ∈ s'.tentativeRejectionsByBlock bn, Refers s' ref bn
  noted : ∀ m ∈ s'.rejections, ∀ k, ∀ r ∈ m.get k, r.inclusionResult ≠ .included ∧
    ∃ ftx, (m.blockNumber, ftx) ∈ s'.evaluatedFirst ∧ ftx.forcedTransactionNumber = k
  evaluated : ∀ e ∈ s'.evaluatedFirst, e.2 ∈ s.added

theorem Notes.putRejection (h : Notes s s') (href : Refers s ref bn)
    (hfirst : (bn, r.transaction) ∈ s'.evaluatedFirst) (hne : r.inclusionResult ≠ .included) :
    Notes s (s'.putRejection ref r) := by
  have hrefers : ∀ {ref' bn' : Nat}, Refers s' ref' bn' →
      Refers (s'.putRejection ref r) ref' bn' := by
    rintro ref' bn' ⟨m, hm, rfl⟩
    refine ⟨_, by rw [Pool.putRejection, List.getElem?_modify, hm]; rfl, ?_⟩
    split <;> rfl
  refine ⟨h.grows, fun hr => hrefers (h.refers hr),
    fun bn' ref' hr => hrefers (h.byBlock bn' ref' hr), ?_, h.evaluated⟩
  intro m hm k r' hr'
  obtain ⟨j, hj⟩ := List.mem_iff_getElem?.mp hm
  rw [Pool.putRejection, List.getElem?_modify, Option.map_eq_map, Option.map_eq_some_iff] at hj
  obtain ⟨m₀, hm₀, rfl⟩ := hj
  have hold := h.noted m₀ (List.mem_of_getElem? hm₀)
  split at hr'
  · rename_i hrj
    subst hrj
    obtain ⟨m₁, hm₁, hbn⟩ := h.refers href
    obtain rfl : m₁ = m₀ := Option.some.inj (hm₁.symm.trans hm₀)
    by_cases hk : k = r.transaction.forcedTransactionNumber
    · subst hk
      simp only [Function.update_self, Option.mem_some_iff] at hr'
      subst hr'
      simp only [if_true, hbn]
      exact ⟨hne, r.transaction, hfirst, rfl⟩
    · simp only [Function.update_of_ne hk] at hr'
      simpa [Pool.putRejection] using hold k r' hr'
  · rename_i hrj
    simpa [hrj, Pool.putRejection] using hold k r' hr'

theorem Fifo.mem_added (h : Fifo s) (hn : n ∈ s.pendingQueue) : n.ftx ∈ s.added := by
  rw [← h.order]
  exact List.mem_append_right _ (List.mem_map_of_mem hn)

section
variable (h : Justified s)
include h

theorem Justified.notes : Notes s s :=
  ⟨fun _ h => h, id, h.byBlock, h.noted, h.evaluated⟩

theorem Justified.computeIfAbsent (bn : Nat) :
    Notes s (s.computeIfAbsent bn).1 ∧
      Refers (s.computeIfAbsent bn).1 (s.computeIfAbsent bn).2 bn := by
  unfold Pool.computeIfAbsent
  split
  · rename_i ref href
    exact ⟨h.notes, h.byBlock bn ref href⟩
  · have hgrow : ∀ {ref bn' : Nat}, Refers s ref bn' →
        ∃ m, (s.rejections ++ [⟨bn, fun _ => none⟩])[ref]? = some m ∧ m.blockNumber = bn' := by
      rintro ref bn' ⟨m, hm, rfl⟩
      obtain ⟨hlt, -⟩ := List.getElem?_eq_some_iff.mp hm
      exact ⟨m, by rw [List.getElem?_append_left hlt, hm], rfl⟩
    have hnew : ∃ m, (s.rejections ++ [⟨bn, fun _ => none⟩])[s.rejections.length]? = some m ∧
        m.blockNumber = bn := ⟨⟨bn, fun _ => none⟩, by simp, rfl⟩
    refine ⟨⟨fun _ h => h, hgrow, fun bn' ref href => ?_, ?_, h.evaluated⟩, hnew⟩
    · by_cases hbn : bn' = bn
      · subst hbn
        simp only [Function.update_self, Option.mem_some_iff] at href
        exact href ▸ hnew
      · simp only [Function.update_of_ne hbn] at href
        exact hgrow (h.byBlock bn' ref href)
    · intro m hm
      obtain hm | hm := List.mem_append.mp hm
      · exact h.noted m hm
      · simp [List.mem_singleton.mp hm]

theorem Justified.evaluated_notes (bn index : Nat) (hftx : ftx ∈ s.added) :
    Notes s (s.evaluated bn index ftx) := by
  unfold Pool.evaluated
  split
  · refine ⟨List.subset_append_left _ _, id, h.byBlock, fun m hm k r hr => ?_, ?_⟩
    · obtain ⟨hne, ftx', hmem, hk⟩ := h.noted m hm k r hr
      exact ⟨hne, ftx', List.mem_append_left _ hmem, hk⟩
    · simpa [or_imp, forall_and, hftx] using fun bn ftx hmem => h.evaluated (bn, ftx) hmem
  · exact h.notes

theorem Justified.evaluate (href : Refers s ref bn) (hn : n.ftx ∈ s.added) (index : Nat)
    (result : SelectionResult) : Notes s (s.evaluate bn ref n index result).1 := by
  have hnotes := h.evaluated_notes bn index hn
  unfold Pool.evaluate
  dsimp only
  split
  · exact hnotes
  · split
    · rename_i hfinal
      refine hnotes.putRejection href ?_ mapToInclusionResult_ne_included
      simp [Pool.evaluated, hfinal.1]
    · exact hnotes

theorem Justified.build (hf : Fifo s) (ha : a ∈ s.attempts) (hb : s.build a result = some (s', p)) :
    Notes s s' ∧ (∀ ref ∈ p.ref, Refers s' ref a.blockNumber) ∧ ∀ n ∈ p.next, n.ftx ∈ s.added := by
  have href := h.building a ha
  have hnext := h.iterators a ha
  cases hp : a.progress with
  | started =>
    simp only [Pool.build, hp] at hb
    cases hb
    obtain ⟨hnotes, hrefers⟩ := h.computeIfAbsent a.blockNumber
    exact ⟨hnotes, by simpa [Building.ref] using hrefers, by simp [Building.next]⟩
  | opened ref =>
    simp only [Pool.build, hp] at hb
    cases hb
    rw [hp] at href
    exact ⟨h.notes, href, fun n hn => hf.mem_added (List.mem_of_head? hn)⟩
  | evaluating ref next index =>
    rw [hp] at href hnext
    cases next with
    | none =>
      simp only [Pool.build, hp] at hb
      cases hb
      exact ⟨h.notes, by simp [Building.ref], by simp [Building.next]⟩
    | some n =>
      simp only [Pool.build, hp, Option.some.injEq] at hb
      have hnotes := h.evaluate (href ref rfl) (hnext n rfl) index result
      rw [hb] at hnotes
      refine ⟨hnotes, ?_⟩
      unfold Pool.evaluate at hb
      dsimp only at hb
      split at hb
      · cases hb
        exact ⟨fun r hr => hnotes.refers (href r hr),
          fun m hm => hf.mem_added (List.mem_of_find?_eq_some hm)⟩
      · split at hb <;> cases hb <;> simp [Building.ref, Building.next]
  | finished => simp [Pool.build, hp] at hb

theorem Justified.settle (hi : s.importing = some i) : Justified (s.settle i) := by
  have himp := h.importing i hi
  obtain ⟨hnoted, hby, hbuild, -, hiter, heval⟩ := h
  unfold Pool.settle
  split
  · refine ⟨hnoted, fun bn ref href => ?_, hbuild, by simp [Importing.ref], hiter, heval⟩
    dsimp only at href
    split at href
    · cases href
    · exact hby bn ref href
  · refine ⟨hnoted, fun bn ref href => ?_, hbuild, ?_, hiter, heval⟩
    · by_cases hbn : bn = i.block.number
      · simp [hbn] at href
      · simp only [Function.update_of_ne hbn] at href
        exact hby bn ref href
    · rintro _ ⟨⟩ ref href
      exact hby _ ref href
  · rename_i ref hp
    rw [hp] at himp
    exact ⟨hnoted, hby, hbuild, by rintro _ ⟨⟩; exact himp, hiter, heval⟩
  · exact ⟨hnoted, hby, hbuild, by simp, hiter, heval⟩
  · rename_i ref n hp
    rw [hp] at himp
    unfold Pool.settleNode
    split
    · exact ⟨hnoted, hby, hbuild, by rintro _ ⟨⟩; exact himp, hiter, heval⟩
    · split <;> exact ⟨hnoted, hby, hbuild, by simp, hiter, heval⟩

end

-- The statuses

def Resolution.rejectedIn (event : Nat) (r : Resolution) : Bool :=
  r.event = event && r.status.inclusionResult ≠ .included

/-- What a recorded status says about the block of its import. -/
def Grounded (s : Pool) (r : Resolution) : Prop :=
  ∃ block ∈ s.imported[r.event]?, if r.status.inclusionResult = .included then
    r.ftx.txHash ∈ block.transactions
  else ∃ ftx, (block.number, ftx) ∈ s.evaluatedFirst ∧
    ftx.forcedTransactionNumber = r.ftx.forcedTransactionNumber

structure Settled (s : Pool) : Prop where
  grounded : ∀ r ∈ s.resolved, Grounded s r
  once (event : Nat) : s.resolved.countP (Resolution.rejectedIn event) ≤ 1
  current : ∀ i ∈ s.importing, s.imported[i.event]? = some i.block ∧
    s.resolved.countP (Resolution.rejectedIn i.event) = 0

theorem Grounded.mono (h : Grounded s r) (himp : s.imported <+: s'.imported)
    (heval : s.evaluatedFirst ⊆ s'.evaluatedFirst) : Grounded s' r := by
  obtain ⟨block, hblock, h⟩ := h
  obtain ⟨later, himp⟩ := himp
  obtain ⟨hlt, -⟩ := List.getElem?_eq_some_iff.mp hblock
  refine ⟨block, by rw [← himp, List.getElem?_append_left hlt]; exact hblock, ?_⟩
  split at h
  · rwa [if_pos ‹_›]
  · rw [if_neg ‹_›]
    obtain ⟨ftx, hmem, hk⟩ := h
    exact ⟨ftx, heval hmem, hk⟩

/-- The events of the statuses are those of blocks already imported. -/
theorem Settled.fresh (h : Settled s) :
    s.resolved.countP (Resolution.rejectedIn s.imported.length) = 0 := by
  rw [List.countP_eq_zero]
  intro r hr hrej
  obtain ⟨block, hblock, -⟩ := h.grounded r hr
  obtain ⟨hlt, -⟩ := List.getElem?_eq_some_iff.mp hblock
  simp only [Resolution.rejectedIn, Bool.and_eq_true, decide_eq_true_eq] at hrej
  omega

theorem Settled.unresolved (h : Settled s) (hr : s'.resolved = s.resolved)
    (himp : s.imported <+: s'.imported) (heval : s.evaluatedFirst ⊆ s'.evaluatedFirst)
    (hcur : ∀ i ∈ s'.importing, s'.imported[i.event]? = some i.block ∧
      s.resolved.countP (Resolution.rejectedIn i.event) = 0) : Settled s' := by
  constructor
  · rw [hr]
    exact fun r hmem => (h.grounded r hmem).mono himp heval
  · rw [hr]
    exact h.once
  · rw [hr]
    exact hcur

theorem Settled.recordStatus (h : Settled s) (hi : s.importing = some i)
    (hg : if result = .included then n.ftx.txHash ∈ i.block.transactions
      else ∃ ftx, (i.block.number, ftx) ∈ s.evaluatedFirst ∧
        ftx.forcedTransactionNumber = n.ftx.forcedTransactionNumber)
    (hcur : ∀ j ∈ imp, result = .included ∧ j.event = i.event ∧ j.block = i.block) :
    Settled { s.recordStatus i n result with importing := imp } := by
  obtain ⟨hblock, hzero⟩ := h.current i hi
  constructor
  · intro r hr
    obtain hr | hr := List.mem_append.mp hr
    · exact h.grounded r hr
    · rw [List.mem_singleton.mp hr]
      exact ⟨i.block, hblock, hg⟩
  · intro event
    have hcount := h.once event
    simp only [Pool.recordStatus, List.countP_append, List.countP_singleton]
    split
    · rename_i hrej
      simp only [Resolution.rejectedIn, Bool.and_eq_true, decide_eq_true_eq] at hrej
      simp [← hrej.1, hzero]
    · exact hcount
  · intro j hj
    obtain ⟨rfl, hevent, hb⟩ := hcur j hj
    rw [hevent, hb]
    refine ⟨hblock, ?_⟩
    simpa [Pool.recordStatus, List.countP_append, Resolution.rejectedIn] using hzero

theorem Settled.settle (h : Settled s) (hj : Justified s) (hi : s.importing = some i) :
    Settled (s.settle i) := by
  have hcur := h.current i hi
  have himp := hj.importing i hi
  unfold Pool.settle
  split
  iterate 3
    · exact h.unresolved rfl (List.prefix_refl _) (List.Subset.refl _) (by rintro _ ⟨⟩; exact hcur)
  · exact h.unresolved rfl (List.prefix_refl _) (List.Subset.refl _) (by simp)
  · rename_i ref n hp
    rw [hp] at himp
    unfold Pool.settleNode
    split
    · rename_i hin
      exact h.recordStatus hi (by simpa using hin) (by simp)
    · split
      · rename_i r hr
        simp only [Pool.rejection, Option.bind_eq_bind, Option.bind_eq_some_iff] at hr
        obtain ⟨ref', rfl, m, hm, hget⟩ := hr
        obtain ⟨m', hm', hbn⟩ := himp ref' rfl
        obtain rfl : m = m' := Option.some.inj (hm.symm.trans hm')
        obtain ⟨hne, ftx, hmem, hk⟩ := hj.noted m (List.mem_of_getElem? hm) _ r hget
        refine h.recordStatus hi ?_ (by simp)
        rw [if_neg hne]
        exact ⟨ftx, hbn ▸ hmem, hk⟩
      · exact h.unresolved rfl (List.prefix_refl _) (List.Subset.refl _) (by simp)

-- Whole runs

theorem step_settled (hf : Fifo s) (hj : Justified s) (h : Settled s) (hs : step s a = some s') :
    Fifo s' ∧ Justified s' ∧ Settled s' := by
  cases a with
  | addLast ftx =>
    cases hs
    refine ⟨hf.addLast, { hj with iterators a ha n hn := ?_, evaluated e he := ?_ }, ?_⟩
    · exact List.mem_append_left _ (hj.iterators a ha n hn)
    · exact List.mem_append_left _ (hj.evaluated e he)
    · exact h.unresolved rfl (List.prefix_refl _) (List.Subset.refl _) h.current
  | processForBlock blockNumber =>
    simp only [step] at hs
    split at hs <;> cases hs
    · exact ⟨hf, hj, h⟩
    · refine ⟨hf.kept (by constructor <;> rfl), { hj with building := ?_, iterators := ?_ }, ?_⟩
      · intro a ha
        obtain ha | ha := List.mem_append.mp ha
        · exact hj.building a ha
        · simp [List.mem_singleton.mp ha, Building.ref]
      · simpa [or_imp, forall_and, Building.next] using hj.iterators
      · exact h.unresolved rfl (List.prefix_refl _) (List.Subset.refl _) h.current
  | build i result =>
    simp only [step, Option.bind_eq_bind, Option.bind_eq_some_iff,
      Prod.exists] at hs
    obtain ⟨a, hi, s₁, p, hb, ⟨⟩⟩ := hs
    have hk := Pool.build_kept hb
    obtain ⟨hnotes, href, hnext⟩ := hj.build hf (List.mem_of_getElem? hi) hb
    refine ⟨(hf.kept hk).kept (by constructor <;> rfl),
      ⟨hnotes.noted, hnotes.byBlock, ?_, ?_, ?_, ?_⟩, h.unresolved hk.resolved ?_ hnotes.grows ?_⟩
    · intro a' ha' ref hr
      obtain ha' | rfl := List.mem_or_eq_of_mem_set ha'
      · exact hnotes.refers (hj.building a' ha' ref hr)
      · exact href ref hr
    · rw [hk.importing]
      exact fun i hi ref hr => hnotes.refers (hj.importing i hi ref hr)
    · rw [hk.added]
      intro a' ha' n hn
      obtain ha' | rfl := List.mem_or_eq_of_mem_set ha'
      · exact hj.iterators a' ha' n hn
      · exact hnext n hn
    · rw [hk.added]
      exact hnotes.evaluated
    · exact hk.imported ▸ List.prefix_refl _
    · rw [hk.importing, hk.imported]
      exact h.current
  | onBlockAdded eventType block =>
    simp only [step] at hs
    split at hs
    · cases hs
      exact ⟨hf, hj, h⟩
    · split at hs <;> cases hs
      refine ⟨{ hf with head := by simp }, { hj with importing := by simp [Importing.ref] },
        h.unresolved rfl (List.prefix_append _ _) (List.Subset.refl _) ?_⟩
      rintro _ ⟨⟩
      exact ⟨by simp, h.fresh⟩
  | settle =>
    simp only [step, Option.bind_eq_bind, Option.bind_eq_some_iff] at hs
    obtain ⟨i, hi, ⟨⟩⟩ := hs
    exact ⟨hf.settle hi, hj.settle hi, h.settle hj hi⟩

theorem reaches_settled (h : Reaches s) : Fifo s ∧ Justified s ∧ Settled s := by
  refine h.invariant (I := fun s => Fifo s ∧ Justified s ∧ Settled s) ⟨?_, ?_, ?_⟩ ?_
  iterate 3
    · constructor <;> simp [initial]
  · rintro s a s' ⟨hf, hj, hs⟩ - hstep
    exact step_settled hf hj hs hstep

/-- The resolved transactions followed by the pending ones are the transactions added, in order;
`included` is recorded only for a transaction of the imported block; an import records at most one
rejection, and only of a transaction that was evaluated first in an attempt for the number of the
block. Transactions go by their forced transaction number. -/
theorem pool_exactly_once (h : Reaches s) :
    s.resolved.map Resolution.ftx ++ s.pendingQueue.map Node.ftx = s.added ∧
      (∀ r ∈ s.resolved, ∃ block, s.imported[r.event]? = some block ∧
        (r.status.inclusionResult = .included → r.ftx.txHash ∈ block.transactions) ∧
        (r.status.inclusionResult ≠ .included →
          ∃ ftx ∈ s.added, (block.number, ftx) ∈ s.evaluatedFirst ∧
            ftx.forcedTransactionNumber = r.ftx.forcedTransactionNumber ∧
            ((∀ f ∈ s.added, ∀ g ∈ s.added,
              f.forcedTransactionNumber = g.forcedTransactionNumber → f = g) → ftx = r.ftx))) ∧
      ∀ event, (s.resolved.filter fun r =>
        r.event = event && r.status.inclusionResult ≠ .included).length ≤ 1 := by
  obtain ⟨hf, hj, hs⟩ := reaches_settled h
  refine ⟨hf.order, fun r hr => ?_, fun event => ?_⟩
  · obtain ⟨block, hblock, hg⟩ := hs.grounded r hr
    refine ⟨block, hblock, fun hin => by rwa [if_pos hin] at hg, fun hrej => ?_⟩
    rw [if_neg hrej] at hg
    obtain ⟨ftx, hmem, hk⟩ := hg
    have hr' : r.ftx ∈ s.added := by
      rw [← hf.order]
      exact List.mem_append_left _ (List.mem_map_of_mem hr)
    have hftx := hj.evaluated _ hmem
    exact ⟨ftx, hftx, hmem, hk, fun huniq => huniq ftx hftx r.ftx hr' hk⟩
  · rw [← List.countP_eq_length_filter]
    exact hs.once event

def firstTx : ForcedTransaction := ⟨1, 0x11, 0xa⟩

def secondTx : ForcedTransaction := ⟨2, 0x22, 0xa⟩

def twoBlocks : List Action :=
  [.addLast firstTx, .addLast secondTx, .processForBlock 5, .build 0 .selected,
    .build 0 .selected, .build 0 .selected, .build 0 (.notSelected (some "NONCE_TOO_LOW")),
    .onBlockAdded .headAdvanced ⟨5, 50, [0x33, 0x11]⟩, .settle, .settle, .settle, .settle, .settle,
    .processForBlock 6, .build 1 .selected, .addLast firstTx, .build 1 .selected,
    .build 1 (.notSelected (some "NONCE_TOO_LOW")), .onBlockAdded .headAdvanced ⟨6, 60, []⟩,
    .settle, .settle, .settle, .settle]

theorem pool_exactly_once_over_two_blocks :
    ∃ s, Reaches s ∧
      s.resolved.map (fun r => (r.ftx, r.status.blockNumber, r.status.inclusionResult)) =
        [(firstTx, 5, .included), (secondTx, 6, .badNonce)] ∧
      s.resolved.map Resolution.ftx ++ s.pendingQueue.map Node.ftx = s.added := by
  obtain ⟨s, hs, hobs⟩ : ∃ s, Reaches s ∧
      s.resolved.map (fun r => (r.ftx, r.status.blockNumber, r.status.inclusionResult)) =
        [(firstTx, 5, .included), (secondTx, 6, .badNonce)] :=
    Interleaving.exists_reaches twoBlocks (fun s : Pool => s.resolved.map fun r =>
        (r.ftx, r.status.blockNumber, r.status.inclusionResult))
      (by decide +kernel)
  exact ⟨s, hs, hobs, (pool_exactly_once hs).1⟩

end StatusNetwork.Sequencer.ForcedTransactionPool
