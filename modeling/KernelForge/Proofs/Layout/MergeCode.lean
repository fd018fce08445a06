import KernelForge.Proofs.Layout.Code

/-!
# Emission of merges

All merges of a block are emitted before any of them is defined. Between the two the names are told
as if the definitions had been made already (`Symbols.definingAll`), so that a merge may name one of
the others. `Emit.merges_ok` shows that the instructions are those of `MergesCode`.
-/

namespace KernelForge.Codegen

open List Body Build Select Symbols Symbols.Sees Table
open Lir (Kind ValueId BlockId)
open Spirv
open Prod (fst)

variable {k : Kind} {ms : List Merge} {i : Instruction} {results : List Id}
    {o : Lir.Operand} {m : Merge}

/-- Names with the definitions of several variables. -/
def Symbols.definingAll (merged : List (ValueId × Id)) (t : Symbols) : Symbols :=
  merged.foldl (fun t e => t.define e.1 e.2) t

namespace Symbols

variable {t t' : Symbols} {merged : List (ValueId × Id)}

theorem definingAll_eq : t.definingAll merged = { t with values := t.values.insertAll merged } := by
  induction merged generalizing t with
  | nil => rfl
  | cons e merged ih => exact ih

theorem definingAll_reserved : (t.definingAll merged).reserved = t.reserved := by
  rw [definingAll_eq]

theorem definingAll_concat (v : ValueId) (id : Id) :
    t.definingAll (merged ++ [(v, id)]) = (t.definingAll merged).define v id := by
  simp [definingAll]

theorem definingAll_get? (hk : (merged.map fst).Nodup) (v : ValueId) :
    (t.definingAll merged).values.get? v =
      ((merged.find? fun e => e.1 == v).map Prod.snd).or (t.values.get? v) := by
  induction merged generalizing t with
  | nil => simp [definingAll]
  | cons e merged ih =>
    obtain ⟨hnew, hk⟩ := nodup_cons.1 hk
    show ((t.define e.1 e.2).definingAll merged).values.get? v = _
    rw [ih hk, List.find?_cons, define, get?_insert]
    by_cases he : e.1 = v
    · subst he
      have hnone : merged.find? (fun e' => e'.1 == e.1) = none := by
        rw [List.find?_eq_none]
        intro e' he' heq
        exact hnew (mem_map.2 ⟨e', he', by simpa using heq⟩)
      simp [hnone]
    · rw [beq_false_of_ne he, if_neg he]

def reserving (v : ValueId) (id : Id) (t : Symbols) : Symbols :=
  { t with reserved := t.reserved.insert v id }

variable {v : ValueId}

variable {id : Id}

theorem definingAll_reserving :
    (t.reserving v id).definingAll merged = (t.definingAll merged).reserving v id := by
  rw [definingAll_eq, definingAll_eq]
  rfl

theorem reserving_sees (h : t.resolve? v = none) : t.Sees (t.reserving v id) where
  slots := rfl
  arrays := rfl
  labels _ _ hl := hl
  values w r hw := by
    have hne : v ≠ w := by
      rintro rfl
      rw [h] at hw
      cases hw
    rw [resolve?, reserving, get?_insert, if_neg hne]
    exact hw

variable {defined : List ValueId}

theorem reserving_told (h : t.resolve? v = none) (ht : t.Told defined) :
    (t.reserving v id).Told defined := by
  obtain ⟨hres, hval⟩ := Option.or_eq_none_iff.1 h
  refine ⟨ht.keyed.insert_of_none hres, ht.values, fun w hw => ?_⟩
  -- what is defined is not the variable that waits
  have hne : v ≠ w := by
    rintro rfl
    have := (ht.values v).2 hw
    rw [hval] at this
    cases this
  rw [reserving, get?_insert, if_neg hne]
  exact ht.settled w hw

theorem Told.congr (h : t.Told defined) (hv : t'.values = t.values) (hr : t'.reserved = t.reserved)
    : t'.Told defined where
  keyed := by
    rw [hr]
    exact h.keyed
  values v := by rw [hv, h.values v]
  settled v hv' := by rw [hr, h.settled v hv']

end Symbols

namespace Emit

variable {scope : Scope} {b b' : Body} {defined : List ValueId} {u : Unit}

variable {id : Id} {block : BlockId} {uses : List ValueId}

theorem body_fresh_adds (b : Body) : b.session.Adds [] b.fresh.2.session := by
  have hfresh : fresh b.session = .ok b.fresh.1 b.fresh.2.session := rfl
  exact (fresh_quiet hfresh).adds

/-- A label is given once and is the same ever after. -/
theorem label_ok (h : label block scope b = .ok id b') :
    b.Emits [] b' ∧ b'.symbols.labels.get? block = some id ∧
      b'.symbols.values = b.symbols.values ∧ b'.symbols.reserved = b.symbols.reserved := by
  have h : b.label block = (id, b') := modifyGet_ok.1 h
  unfold Body.label at h
  cases hl : b.symbols.labels.get? block with
  | some =>
    simp only [hl] at h
    cases h
    exact ⟨.refl _, hl, rfl, rfl⟩
  | none =>
    simp only [hl] at h
    have hadds := body_fresh_adds b
    cases h
    refine ⟨⟨hadds, ⟨rfl, rfl, fun block' id' hb => ?_, fun v id' hv => hv⟩⟩,
      Table.get?_insert_self _ _ _, rfl, rfl⟩
    exact Table.get?_insert_of_none hl hb

/-- The ids of merged variables are taken, the reserved ones first. -/
theorem results_ok {pre : List (ValueId × Id)}
    (ht : (b.symbols.definingAll pre).Told defined) (hnew : NewValues (ms.map fst) defined)
    (h : (ms.mapM fun m => resultFor m.1) scope b = .ok results b') :
    ms.length = results.length ∧ b.session.Adds [] b'.session ∧
      (b.symbols.definingAll pre).Sees
        (b'.symbols.definingAll (pre ++ (ms.map fst).zip results)) ∧
      (b'.symbols.definingAll (pre ++ (ms.map fst).zip results)).Told
        ((ms.map fst).reverse ++ defined) := by
  rw [mapM_apply] at h
  induction ms generalizing b pre defined results with
  | nil =>
    obtain ⟨rfl, rfl⟩ := pure_ok.1 h
    exact ⟨rfl, .refl _, by simpa using .refl _, by simpa using ht⟩
  | cons m ms ih =>
    obtain ⟨id, b₁, ids, hfirst, hrest, rfl⟩ := mapM_cons_ok h
    have hkeyed : b.symbols.reserved.Keyed := definingAll_reserved ▸ ht.keyed
    obtain ⟨hadds, hfrees, htaken⟩ := resultFor_ok hkeyed hfirst
    have hdefines : (b.symbols.definingAll pre).Defines m.1 id
        (b₁.symbols.definingAll (pre ++ [(m.1, id)])) := by
      rw [definingAll_concat, definingAll_eq, definingAll_eq]
      exact frees_define { hfrees with values := by rw [hfrees.values] } htaken
    have hnew' : NewValues ([m.1] ++ ms.map fst) defined := hnew
    obtain ⟨hlen, hadds', hsees, htold⟩ := ih (hdefines.told ht) (hnew'.right fun _ hv => hv) hrest
    refine ⟨by simp [hlen], hadds.trans hadds', ?_, ?_⟩
    · have := (hdefines.sees ht (hnew.apart m.1 (by simp))).trans hsees
      simpa using this
    · simpa using htold

/-- A later moment of the emission of merges. -/
structure Merging (merged : List (ValueId × Id)) (defined : List ValueId) (c : List Instruction)
    (b b' : Body) : Prop where
  session : b.session.Adds c b'.session
  sees : (b.symbols.definingAll merged).Sees (b'.symbols.definingAll merged)
  told : (b'.symbols.definingAll merged).Told defined

/-- The names of a moment at which merges are emitted. -/
def mergingNames (scope : Scope) (merged : List (ValueId × Id)) (b : Body) : Names :=
  ⟨scope, b.session, b.symbols.definingAll merged⟩

namespace Merging

variable {merged : List (ValueId × Id)} {c c' : List Instruction} {b'' : Body}

theorem refl (h : (b.symbols.definingAll merged).Told defined) : Merging merged defined [] b b :=
  ⟨.refl _, .refl _, h⟩

theorem trans (h : Merging merged defined c b b') (h' : Merging merged defined c' b' b'') :
    Merging merged defined (c ++ c') b b'' :=
  ⟨h.session.trans h'.session, h.sees.trans h'.sees, h'.told⟩

theorem names (h : Merging merged defined c b b') :
    (mergingNames scope merged b).Sees (mergingNames scope merged b') :=
  ⟨rfl, h.session.toSees, h.sees⟩

/-- A step of the session is a step of the emission. -/
theorem ofSession (h : b.session.Adds c b'.session) (hs : b'.symbols = b.symbols)
    (ht : (b.symbols.definingAll merged).Told defined) : Merging merged defined c b b' :=
  ⟨h, hs ▸ Symbols.Sees.refl _, hs ▸ ht⟩

theorem ofLabel (h : label block scope b = .ok id b')
    (ht : (b.symbols.definingAll merged).Told defined) :
    Merging merged defined [] b b' ∧ b'.symbols.labels.get? block = some id := by
  obtain ⟨hemits, hl, hvalues, hreserved⟩ := label_ok h
  have hlater : b'.symbols.definingAll merged =
      { b.symbols.definingAll merged with labels := b'.symbols.labels } := by
    rw [definingAll_eq, definingAll_eq, hvalues, ← hemits.symbols.slots,
      ← hemits.symbols.arrays, ← hreserved]
  have hsees : (b.symbols.definingAll merged).Sees (b'.symbols.definingAll merged) := by
    rw [hlater, definingAll_eq]
    exact ⟨rfl, rfl, hemits.symbols.labels, fun _ _ hv => hv⟩
  exact ⟨⟨hemits.session, hsees, ht.congr (hlater ▸ rfl) (hlater ▸ rfl)⟩, hl⟩

end Merging

section Merges

variable {merged : List (ValueId × Id)} {predCount : Nat}
  (hk : (merged.map fst).Nodup) (hd : ∀ v ∈ merged.map fst, v ∈ defined)

include hk hd

variable {dst : ValueId}

/-- A value that reaches a merge has the id it has at the end, which may be reserved here. -/
theorem mergeValue_ok (ht : (b.symbols.definingAll merged).Told defined)
    (h : mergeValue merged predCount dst k o scope b = .ok id b') :
    Merging merged defined [] b b' ∧ (mergingNames scope merged b').mergeId k o = some id := by
  cases o with
  | const =>
    obtain ⟨_, hstep, rfl⟩ := (build_ok scope).1 h
    obtain ⟨hadds, hget⟩ := constant_ok hstep
    exact ⟨.ofSession hadds rfl ht, hget⟩
  | var v =>
    cases hfind : merged.find? fun e => e.1 == v with
    | some e =>
      simp only [mergeValue, hfind] at h
      obtain ⟨rfl, rfl⟩ := pure_ok.1 h
      refine ⟨.refl ht, ?_⟩
      have hev : e.1 = v := by simpa using List.find?_some hfind
      have hsettled := ht.settled v (hd v (mem_map.2 ⟨e, mem_of_find?_eq_some hfind, hev⟩))
      show resolve? (b.symbols.definingAll merged) v = some e.2
      rw [resolve?, hsettled, definingAll_get? hk, hfind]
      rfl
    | none =>
      have hresolve (t : Symbols) : (t.definingAll merged).resolve? v = t.resolve? v := by
        rw [resolve?, definingAll_get? hk, definingAll_reserved, hfind]
        rfl
      simp only [mergeValue, hfind, bind_apply] at h
      replace h := get_bind_ok.1 h
      cases hr : b.symbols.resolve? v with
      | some =>
        simp only [hr] at h
        obtain ⟨rfl, rfl⟩ := pure_ok.1 h
        exact ⟨.refl ht, (hresolve _).trans hr⟩
      | none =>
        simp only [hr] at h
        split at h
        · have h : b.reserve v = (id, b') := modifyGet_ok.1 h
          have hres := (Option.or_eq_none_iff.1 hr).1
          have hadds := body_fresh_adds b
          simp only [reserve, hres] at h
          cases h
          have hnone := (hresolve b.symbols).trans hr
          have hcomm : (b.symbols.reserving v b.fresh.1).definingAll merged =
              (b.symbols.definingAll merged).reserving v b.fresh.1 := definingAll_reserving
          refine ⟨⟨hadds, ?_, ?_⟩, ?_⟩
          · exact hcomm ▸ reserving_sees hnone
          · exact hcomm ▸ reserving_told hnone ht
          · show resolve? ((b.symbols.reserving v b.fresh.1).definingAll merged) v = some _
            rw [hresolve, resolve?, reserving, get?_insert_self]
            rfl
        · exact absurd h throw_ok

theorem mergePairs_ok {incoming : List (BlockId × Lir.Operand)}
    {pairs : List (Id × Id)} (ht : (b.symbols.definingAll merged).Told defined)
    (h : mergePairs merged predCount dst k incoming scope b = .ok pairs b') :
    Merging merged defined [] b b' ∧
      incoming.mapM ((mergingNames scope merged b').mergePair k) = some pairs := by
  rw [mergePairs, mapM_apply] at h
  induction incoming generalizing b pairs with
  | nil =>
    obtain ⟨rfl, rfl⟩ := pure_ok.1 h
    exact ⟨.refl ht, rfl⟩
  | cons e incoming ih =>
    obtain ⟨p, b₁, ps, hfirst, hrest, rfl⟩ := mapM_cons_ok h
    simp only [bind_apply] at hfirst
    obtain ⟨id, b₃, hvalue, hfirst⟩ := bind_ok.1 hfirst
    obtain ⟨l, b₄, hlabel, hpure⟩ := bind_ok.1 hfirst
    obtain ⟨rfl, rfl⟩ := pure_ok.1 hpure
    obtain ⟨hm, hid⟩ := mergeValue_ok hk hd ht hvalue
    obtain ⟨hm', hl⟩ := Merging.ofLabel hlabel hm.told
    obtain ⟨hm'', hpairs⟩ := ih hm'.told hrest
    refine ⟨(hm.trans hm').trans hm'', ?_⟩
    have hpair : (mergingNames scope merged b₄).mergePair k e = some (id, l) := by
      refine Names.mergePair_iff.2 ⟨hm'.names.mergeId hid, ?_⟩
      show (b₄.symbols.definingAll merged).labels.get? e.1 = some l
      rw [definingAll_eq, hl]
    rw [mapM_cons, hm''.names.mergePair hpair, hpairs]
    rfl

/-- One merge becomes its instruction. -/
theorem merge_ok {result : Id} (hm : merged.find? (fun e => e.1 == m.1) = some (m.1, result))
    (ht : (b.symbols.definingAll merged).Told defined)
    (h : merge merged predCount m result scope b = .ok u b') :
    ∃ i, Merging merged defined [i] b b' ∧ MergeCode (mergingNames scope merged b') m i ∧
      i.result = some result := by
  obtain ⟨k, hkind, h⟩ := look_ok kindOf_ok h
  obtain ⟨type, s, htype, h⟩ := build_bind_ok h
  obtain ⟨pairs, b₂, hpairs, h⟩ := bind_ok.1 h
  obtain ⟨hadds, hget⟩ := typeOf_ok htype
  have hm₁ : Merging merged defined [] b ⟨s, b.symbols⟩ := .ofSession hadds rfl ht
  obtain ⟨hm₂, hpairs⟩ := mergePairs_ok hk hd hm₁.told hpairs
  cases ho : mergeOperands result pairs with
  | none =>
    simp only [ho] at h
    exact absurd h throw_ok
  | some =>
    simp only [ho] at h
    obtain ⟨session, hstep, rfl⟩ := (build_ok scope).1 h
    have hm₃ : Merging merged defined [_] b₂ { b₂ with session } :=
      .ofSession (append_ok hstep).adds rfl hm₂.told
    refine ⟨_, (hm₁.trans hm₂).trans hm₃, ?_, rfl⟩
    refine .intro ?_ hkind ?_ (mapM_some_of (fun _ _ he => hm₃.names.mergePair he) hpairs) ho
    · have hmem := mem_of_find?_eq_some hm
      show resolve? (b₂.symbols.definingAll merged) m.1 = some result
      rw [resolve?, hm₃.told.settled m.1 (hd m.1 (mem_map.2 ⟨_, hmem, rfl⟩)),
        definingAll_get? hk, hm]
      rfl
    · exact (hm₂.trans hm₃).session.types _ _ hget

/-- All merges become their instructions. -/
theorem mergeAll_ok (hlen : ms.length = results.length)
    (hin : ∀ e ∈ ms.zip results, merged.find? (fun e' => e'.1 == e.1.1) = some (e.1.1, e.2))
    (ht : (b.symbols.definingAll merged).Told defined)
    (h : ((ms.zip results).forM fun e => merge merged predCount e.1 e.2) scope b = .ok u b') :
    ∃ is, Merging merged defined is b b' ∧
      MergesCode (mergingNames scope merged b') ms is
        (((ms.map fst).zip results).flatMap fun e =>
          (mergingNames scope merged b').stored e.1 e.2) := by
  induction ms generalizing b results with
  | nil =>
    obtain ⟨_, rfl⟩ := pure_ok.1 h
    exact ⟨[], .refl ht, .nil⟩
  | cons m ms ih =>
    cases results with
    | nil => cases hlen
    | cons result =>
      obtain ⟨_, b₁, hfirst, h⟩ := bind_ok.1 h
      obtain ⟨i, hm, hcode, hresult⟩ := merge_ok hk hd (hin (m, result) (by simp)) ht hfirst
      obtain ⟨is, hm', hcodes⟩ := ih (by simpa using hlen)
        (fun e he => hin e (mem_cons_of_mem _ he)) hm.told h
      exact ⟨i :: is, hm.trans hm', .cons (hcode.later hm'.names) hresult hcodes⟩

end Merges

/-- Recording the definitions of merged variables. -/
theorem defineAll_ok {merged : List (ValueId × Id)}
    (h : (merged.forM fun e => define e.1 e.2) scope b = .ok u b') :
    b.session.Adds (merged.flatMap fun e => (b'.names scope).stored e.1 e.2) b'.session ∧
      b'.symbols = b.symbols.definingAll merged := by
  induction merged generalizing b with
  | nil =>
    obtain ⟨_, rfl⟩ := pure_ok.1 h
    exact ⟨Session.Adds.refl _, rfl⟩
  | cons e merged ih =>
    obtain ⟨_, b₁, hfirst, h⟩ := bind_ok.1 h
    obtain ⟨hadds, hsym⟩ := define_ok hfirst
    obtain ⟨hadds', hsym'⟩ := ih h
    have hstored : (b₁.names scope).stored e.1 e.2 = (b'.names scope).stored e.1 e.2 := by
      unfold Names.stored Names.slot? names
      rw [hsym', definingAll_eq]
    rw [flatMap_cons, ← hstored]
    exact ⟨hadds.trans hadds', by rw [hsym', hsym]; rfl⟩

/-- The merges of a block become instructions with the names they have at the end. -/
theorem merges_ok {block : Lir.Block} (ht : b.symbols.Told defined)
    (hnew : NewValues ((leadingMerges block.ops).map fst) defined)
    (h : merges block scope b = .ok u b') :
    ∃ phis stores, b.Emits (phis ++ stores) b' ∧
      b'.symbols.Told (((leadingMerges block.ops).map fst).reverse ++ defined) ∧
      MergesCode (b'.names scope) (leadingMerges block.ops) phis stores ∧
      ∀ m ∈ leadingMerges block.ops, checkMerge block.id (predecessors scope.function block.id)
        (m.2.map fst) = .ok () := by
  simp only [merges] at h
  generalize leadingMerges block.ops = ms at *
  obtain ⟨_, b₀, hcheck, h⟩ := bind_ok.1 h
  obtain ⟨rfl, hchecked⟩ := checkIncoming_ok hcheck
  obtain ⟨results, b₁, hresults, h⟩ := bind_ok.1 h
  obtain ⟨_, b₂, hmerges, h⟩ := bind_ok.1 h
  have ht₀ : (b.symbols.definingAll []).Told defined := ht
  obtain ⟨hlen, hadds, hsees, htold⟩ := results_ok ht₀ hnew hresults
  -- the keys of the merged variables are their destinations
  have hkeys : ((ms.map fst).zip results).map fst = ms.map fst := by
    rw [map_fst_zip (by simp [hlen])]
  have hk : (((ms.map fst).zip results).map fst).Nodup := by
    rw [hkeys]
    exact hnew.nodup
  have hd : ∀ v ∈ ((ms.map fst).zip results).map fst,
      v ∈ (ms.map fst).reverse ++ defined := by
    intro v hv
    rw [hkeys] at hv
    exact mem_append_left _ (mem_reverse.2 hv)
  have hin : ∀ e ∈ ms.zip results,
      ((ms.map fst).zip results).find? (fun e' => e'.1 == e.1.1) = some (e.1.1, e.2) :=
    fun e he => find?_zip_key hlen hnew.nodup he
  obtain ⟨phis, hm, hcodes⟩ := mergeAll_ok hk hd hlen hin htold hmerges
  obtain ⟨hadds', hsym⟩ := defineAll_ok h
  have hnames : (mergingNames scope ((ms.map fst).zip results) b₂).Sees (b'.names scope) :=
    ⟨rfl, hadds'.toSees, by rw [names, hsym]; exact refl _⟩
  have hstored : (((ms.map fst).zip results).flatMap fun e =>
        (mergingNames scope ((ms.map fst).zip results) b₂).stored e.1 e.2) =
      ((ms.map fst).zip results).flatMap fun e => (b'.names scope).stored e.1 e.2 := by
    congr 1
    funext e
    exact (hnames.stored e.1 e.2).symm
  refine ⟨phis, _, ⟨(hadds.trans hm.session).trans hadds', ?_⟩, ?_, ?_, hchecked⟩
  · rw [hsym]
    exact hsees.trans hm.sees
  · rw [hsym]
    exact hm.told
  · rw [← hstored]
    exact hcodes.later hnames

end Emit

end KernelForge.Codegen
