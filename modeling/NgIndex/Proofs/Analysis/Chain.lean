import NgIndex.Proofs.Analysis.Candidates
import NgIndex.Proofs.Script.Traversal

/-!
# State calls in chains

Each state call of a script is visited once.  A call that another state call is made on directly is
passed over, and the other one handles it together with its own.  So each call is handled once, as
long as the calls of a chain stand directly on each other.  A call in parentheses, or in a
conversion or assertion, is not passed over, but the call that is made on it handles it all the
same: then it is handled once more, with all calls that it is made on in turn.
-/

namespace NgIndex

open Script Script.Cursor Lookup

namespace Script

theorem Cursor.Within.of_parent? {root c parent : Cursor} (h : Within root c)
    (hroot : root.above = []) (hparent : c.parent? = some parent) :
    Within root parent ∧ c ∈ parent.children := by
  cases h with
  | refl =>
      rw [parent?, hroot] at hparent
      cases hparent
  | tail hwithin hchild =>
      obtain ⟨node, -, rfl⟩ := List.mem_map.mp hchild
      obtain rfl := Option.some.inj hparent
      exact ⟨hwithin, hchild⟩

theorem Cursor.parent?_of_mem_children {c parent : Cursor} (h : c ∈ parent.children) :
    c.parent? = some parent := by
  obtain ⟨node, -, rfl⟩ := List.mem_map.mp h
  rfl

theorem Cursor.role_of_child? {c child : Cursor} {role : Field} (h : c.child? role = some child) :
    child.node.role = some role := by
  simpa using List.find?_some h

theorem Call.exists_at? {m : Module} {c callee : Cursor} (hkind : c.kind = .call)
    (hcallee : c.child? .function = some callee) : ∃ call, Call.at? m c = some call := by
  simp [Call.at?, hkind, hcallee]

end Script

namespace Analysis

/-- The state call at a place. -/
def stateCallAt? (m : Module) (c : Cursor) : Option Call :=
  (Call.at? m c).filter fun call => call.isMethod stateMethod

/-- The state calls at all places of a script. -/
def stateSites (m : Module) : List Call :=
  m.root.preOrder.filterMap (stateCallAt? m)

/-- A state call of a script. -/
structure StateCall (m : Module) (call : Call) : Prop where
  within : Within m.root call.site
  at? : stateCallAt? m call.site = some call

/-- Whether the object of a call stands in parentheses, or in a conversion or assertion. -/
def isWrapped (call : Call) : Bool :=
  call.object.any fun object => (wrapped? object.kind).isSome

/-- The calls that are handled once more: whatever a call on something in wrappers is made on. -/
def repeatedCalls (m : Module) : List Call :=
  ((stateSites m).filter isWrapped).flatMap fun call => (callChain m call).tail

section StateCall

variable {m : Module} {c : Cursor} {call : Call}

theorem stateCallAt?_eq_some_iff : stateCallAt? m c = some call ↔
    Call.at? m c = some call ∧ call.isMethod stateMethod = true :=
  Option.filter_eq_some_iff

theorem site_of_stateCallAt? (h : stateCallAt? m c = some call) : call.site = c :=
  (Call.of_at? (stateCallAt?_eq_some_iff.mp h).1).2.1

theorem mem_stateSites_iff : call ∈ stateSites m ↔ StateCall m call := by
  simp only [stateSites, List.mem_filterMap, mem_preOrder_iff]
  constructor
  · rintro ⟨c, hc, hcall⟩
    obtain rfl := site_of_stateCallAt? hcall
    exact ⟨hc, hcall⟩
  · exact fun h => ⟨call.site, h.within, h.at?⟩

/-- A state call is made on an object by a name, and the object stands before the name. -/
theorem StateCall.exists_pair (h : StateCall m call) (hroot : m.root.node.Tidy) :
    call.callee.kind = .member ∧ ∃ object name, Pair call.callee .object .property object name ∧
      call.object = some object ∧ m.textAt name = stateMethod := by
  obtain ⟨hat, hstate⟩ := stateCallAt?_eq_some_iff.mp h.at?
  obtain ⟨-, -, hcallee, hobject, hmethod⟩ := Call.of_at? hat
  have hname : call.method = some stateMethod := by simpa [Call.isMethod] using hstate
  by_cases hmember : call.callee.kind = .member
  · have htidy := ((h.within.trans (within_of_child? hcallee)).tidy hroot)
    obtain ⟨object, name, hpair⟩ := Cursor.exists_pair htidy (htidy.shaped.member hmember) nofun
    refine ⟨hmember, object, name, hpair, ?_, ?_⟩
    · rw [hobject, if_pos (by simpa using hmember), hpair.left]
    · rw [hmethod, if_pos (by simpa using hmember), hpair.right] at hname
      exact Option.some.inj hname
  · rw [hmethod, if_neg (by simpa using hmember)] at hname
    cases hname

theorem innerCall?_eq_some_iff {inner : Call} : innerCall? m call = some inner ↔
    ∃ object, call.object = some object ∧ stateCallAt? m object.unwrap = some inner := by
  simp only [innerCall?, Option.bind_eq_bind, Option.bind_eq_some_iff, Option.pure_def,
    stateCallAt?_eq_some_iff, Option.guard_eq_some']
  constructor
  · rintro ⟨object, hobject, found, hfound, _, hstate, heq⟩
    obtain rfl := Option.some.inj heq
    exact ⟨object, hobject, hfound, hstate⟩
  · rintro ⟨object, hobject, hinner, hstate⟩
    exact ⟨object, hobject, inner, hinner, (), hstate, rfl⟩

/-- The call that a state call is made on is one too, and it ends before the name of the method of
the other. -/
theorem StateCall.inner {inner : Call} (h : StateCall m call) (hroot : m.root.node.Tidy)
    (hinner : innerCall? m call = some inner) : StateCall m inner ∧
      ∃ object name, Pair call.callee .object .property object name ∧
        call.object = some object ∧ Within object inner.site := by
  obtain ⟨hmember, object, name, hpair, hobject, -⟩ := h.exists_pair hroot
  obtain ⟨object', hobject', hstate⟩ := innerCall?_eq_some_iff.mp hinner
  obtain rfl := Option.some.inj (hobject.symm.trans hobject')
  obtain ⟨-, -, hcallee, -, -⟩ := Call.of_at? (stateCallAt?_eq_some_iff.mp h.at?).1
  have hsite := site_of_stateCallAt? hstate
  have hwithin : Within object inner.site := hsite ▸ within_unwrap object
  refine ⟨⟨?_, hsite ▸ hstate⟩, object, name, hpair, hobject, hwithin⟩
  exact (h.within.trans (within_of_child? hcallee)).trans
    ((within_of_child? hpair.left).trans hwithin)

/-- A call is passed over if and only if a state call is made on it directly. -/
theorem isChained_iff (hroot : m.root.node.Tidy) (habove : m.root.above = [])
    (hc : Within m.root c) :
    isChained m c = true ↔ ∃ outer, StateCall m outer ∧ outer.object = some c := by
  constructor
  · intro h
    unfold isChained at h
    split at h
    · cases h
    next callee hcallee =>
      simp only [Bool.and_eq_true, beq_iff_eq, Option.any_eq_true] at h
      obtain ⟨⟨⟨⟨hrole, hmember⟩, hfunction⟩, site, hsite, hkind⟩, name, hname, htext⟩ := h
      -- By its role the place is the object of the member around it, and this the callee of a call.
      obtain ⟨hwithin, hmem⟩ := hc.of_parent? habove hcallee
      obtain ⟨hwithin', hmem'⟩ := hwithin.of_parent? habove hsite
      have htidy := hwithin.tidy hroot
      have htidy' := hwithin'.tidy hroot
      obtain ⟨object, property, hpair⟩ :=
        Cursor.exists_pair htidy (htidy.shaped.member hmember) nofun
      obtain ⟨function, arguments, hcall⟩ :=
        Cursor.exists_pair htidy' (htidy'.shaped.call hkind) nofun
      obtain rfl := hpair.only_left c hmem hrole
      obtain rfl := hcall.only_left callee hmem' hfunction
      obtain ⟨outer, houter⟩ := Call.exists_at? hkind hcall.left
      obtain ⟨-, hsame, hcalled, hobject, hmethod⟩ := Call.of_at? houter
      obtain rfl := Option.some.inj (hcalled.symm.trans hcall.left)
      rw [if_pos (by simpa using hmember), hpair.left] at hobject
      rw [if_pos (by simpa using hmember), hname, Option.map_some, htext] at hmethod
      refine ⟨outer, ⟨hsame ▸ hwithin', ?_⟩, hobject⟩
      rw [hsame]
      exact stateCallAt?_eq_some_iff.mpr ⟨houter, by simp [Call.isMethod, hmethod]⟩
  · rintro ⟨outer, houter, hobject⟩
    obtain ⟨hmember, object, name, hpair, hobject', htext⟩ := houter.exists_pair hroot
    obtain rfl := Option.some.inj (hobject.symm.trans hobject')
    obtain ⟨hkind, hsite, hcallee, -, -⟩ := Call.of_at? (stateCallAt?_eq_some_iff.mp houter.at?).1
    have hparent := parent?_of_mem_children (List.mem_of_find?_eq_some hpair.left)
    have hparent' := parent?_of_mem_children (List.mem_of_find?_eq_some hcallee)
    have hrole := role_of_child? hpair.left
    have hrole' := role_of_child? hcallee
    simp [isChained, hparent, hparent', hrole, hrole', hmember, hkind, hpair.right, htext]

/-- A state call is found from its object, two levels above it. -/
theorem StateCall.site_of_object (h : StateCall m call) (hroot : m.root.node.Tidy)
    (hobject : call.object = some c) : c.parent?.bind Cursor.parent? = some call.site := by
  obtain ⟨-, object, name, hpair, hobject', -⟩ := h.exists_pair hroot
  obtain rfl := Option.some.inj (hobject.symm.trans hobject')
  obtain ⟨-, -, hcallee, -, -⟩ := Call.of_at? (stateCallAt?_eq_some_iff.mp h.at?).1
  rw [parent?_of_mem_children (List.mem_of_find?_eq_some hpair.left), Option.bind_some]
  exact parent?_of_mem_children (List.mem_of_find?_eq_some hcallee)

theorem StateCall.eq_of_object {other : Call} (h : StateCall m call) (h' : StateCall m other)
    (hroot : m.root.node.Tidy) (hobject : call.object = some c) (hobject' : other.object = some c) :
    call = other := by
  have hsite := (h.site_of_object hroot hobject).symm.trans (h'.site_of_object hroot hobject')
  have hat := h'.at?
  rw [← Option.some.inj hsite, h.at?] at hat
  exact Option.some.inj hat

/-- Where the object of a call stands in no wrappers, the call is made on it directly. -/
theorem object_of_innerCall? {inner : Call} (h : isWrapped call = false)
    (hinner : innerCall? m call = some inner) : call.object = some inner.site := by
  obtain ⟨object, hobject, hstate⟩ := innerCall?_eq_some_iff.mp hinner
  have hself : object.unwrap = object :=
    unwrap_of_wrapped?_eq_none (by simpa [isWrapped, hobject] using h)
  rw [hobject, site_of_stateCallAt? hstate, hself]

/-- A call that another one is made on directly stands in no wrappers. -/
theorem innerCall?_of_object {inner : Call} (hinner : StateCall m inner)
    (hobject : call.object = some inner.site) :
    isWrapped call = false ∧ innerCall? m call = some inner := by
  have hkind := (Call.of_at? (stateCallAt?_eq_some_iff.mp hinner.at?).1).1
  have hnone : wrapped? inner.site.kind = none := by rw [hkind]; rfl
  refine ⟨by simp [isWrapped, hobject, hnone], innerCall?_eq_some_iff.mpr ⟨_, hobject, ?_⟩⟩
  rw [unwrap_of_wrapped?_eq_none hnone]
  exact hinner.at?

end StateCall

/-! ### One chain -/

/-- A call that is written before another: it ends before the name of the other one's method. -/
def EndsBefore (earlier later : Call) : Prop :=
  ∃ name, later.callee.child? .property = some name ∧
    earlier.site.node.stop.byte ≤ name.node.start.byte

section Chain

variable {m : Module} {call : Call}

/-- The calls that a call is made on, from the last to the first. -/
theorem tail_callChain (m : Module) (call : Call) :
    (callChain m call).tail = (innerCall? m call).toList.flatMap (callChain m) := by
  rw [callChain]
  split
  · next inner hinner =>
      rw [hinner]
      simp
  · next hnone =>
      rw [hnone]
      rfl

theorem callChain_eq_cons (m : Module) (call : Call) :
    callChain m call = call :: (callChain m call).tail := by
  rw [callChain]
  split <;> rfl

/-- Along a chain, from its last call to its first, each call contains the ones after it and is
written later than they are. -/
theorem StateCall.chain (h : StateCall m call) (hroot : m.root.node.Tidy) :
    (callChain m call).Pairwise (fun later earlier => EndsBefore earlier later) ∧
      ∀ part ∈ callChain m call, Within call.site part.site := by
  fun_induction callChain m call with
  | case1 call inner hinner ih =>
      obtain ⟨hstate, object, name, hpair, hobject, hwithin⟩ := h.inner hroot hinner
      obtain ⟨hpairs, hinside⟩ := ih hstate
      obtain ⟨-, -, hcallee, -, -⟩ := Call.of_at? (stateCallAt?_eq_some_iff.mp h.at?).1
      have hcalled := h.within.trans (within_of_child? hcallee)
      have hplace := (hcalled.trans (within_of_child? hpair.left)).tidy hroot
      refine ⟨List.pairwise_cons.mpr ⟨fun part hpart => ⟨name, hpair.right, ?_⟩, hpairs⟩,
        fun part hpart => ?_⟩
      · have hstop := ((hwithin.trans (hinside part hpart)).range hplace).2
        exact Nat.le_trans hstop hpair.ends
      · rcases List.mem_cons.mp hpart with rfl | hpart
        · exact .refl _
        · exact ((within_of_child? hcallee).trans (within_of_child? hpair.left)).trans
            (hwithin.trans (hinside part hpart))
  | case2 call hnone =>
      refine ⟨List.pairwise_singleton _ _, fun part hpart => ?_⟩
      obtain rfl := List.mem_singleton.mp hpart
      exact .refl _

end Chain

/-! ### All chains -/

section Chains

variable {m : Module}

theorem nodup_stateSites (hroot : m.root.node.Tidy) : ((stateSites m).map Call.site).Nodup := by
  refine List.pairwise_map.mpr (List.pairwise_filterMap.mpr ?_)
  refine (nodup_preOrderNode m.root.above m.root.node hroot).imp ?_
  intro c c' hne call hcall call' hcall' hsame
  rw [site_of_stateCallAt? hcall, site_of_stateCallAt? hcall'] at hsame
  exact hne hsame

/-- The calls that an event is handled with. -/
def handled (m : Module) : Event → List Call
  | .call call => chainAt m call
  | _ => []

/-- The calls that are handled are those of the chains at the state calls. -/
theorem stateCalls_perm_flatMap (m : Module) :
    (stateCalls m).Perm ((stateSites m).flatMap (chainAt m)) := by
  have hplaces (places : List Cursor) : (places.filterMap (Event.at? m)).flatMap (handled m) =
      (places.filterMap (stateCallAt? m)).flatMap (chainAt m) := by
    induction places with
    | nil => rfl
    | cons c rest ih =>
        cases hcall : Call.at? m c with
        | none =>
            have hnone : stateCallAt? m c = none := by rw [stateCallAt?, hcall, Option.filter_none]
            rw [List.filterMap_cons_none hnone, ← ih]
            cases hevent : Event.at? m c with
            | none => rw [List.filterMap_cons_none hevent]
            | some event =>
                rw [List.filterMap_cons_some hevent, List.flatMap_cons]
                cases event with
                | call call =>
                    rw [eventAt?_eq_call_iff, hcall] at hevent
                    cases hevent
                | _ => rfl
        | some call =>
            rw [List.filterMap_cons_some (eventAt?_eq_call_iff.mpr hcall), List.flatMap_cons, ih]
            by_cases hstate : call.isMethod stateMethod = true
            · rw [List.filterMap_cons_some (stateCallAt?_eq_some_iff.mpr ⟨hcall, hstate⟩)]
              rfl
            · have hnone : stateCallAt? m c = none := by simp [stateCallAt?, hcall, hstate]
              rw [List.filterMap_cons_none hnone]
              simp [handled, chainAt, hstate]
  have hhandled : stateCalls m = m.events.flatMap (handled m) := by
    unfold stateCalls
    congr 1
  rw [hhandled, Module.events_eq, hplaces]
  exact ((perm_postOrder m.root).filterMap _).flatMap_right _

/-- The calls that other calls are made on directly are those that are passed over. -/
theorem filterMap_innerCall?_perm (hroot : m.root.node.Tidy) (habove : m.root.above = []) :
    (((stateSites m).filter fun call => !isWrapped call).filterMap (innerCall? m)).Perm
      ((stateSites m).filter fun call => isChained m call.site) := by
  have hnodup := List.Nodup.of_map _ (nodup_stateSites hroot)
  have hdirect {outer : Call} (h : outer ∈ (stateSites m).filter fun call => !isWrapped call) :
      StateCall m outer ∧ isWrapped outer = false := by
    simpa [mem_stateSites_iff] using List.mem_filter.mp h
  refine (List.perm_ext_iff_of_nodup ?_ (hnodup.filter _)).mpr fun call => ?_
  · refine List.pairwise_filterMap.mpr ((hnodup.filter _).imp_of_mem ?_)
    intro outer outer' houter houter' hne inner hinner inner' hinner' hsame
    have hobject := object_of_innerCall? (hdirect houter).2 hinner
    have hobject' := object_of_innerCall? (hdirect houter').2 hinner'
    exact hne ((hdirect houter).1.eq_of_object (hdirect houter').1 hroot hobject (hsame ▸ hobject'))
  · simp only [List.mem_filterMap, List.mem_filter, mem_stateSites_iff, Bool.not_eq_true']
    constructor
    · rintro ⟨outer, ⟨houter, hwrapped⟩, hinner⟩
      have hstate := (houter.inner hroot hinner).1
      exact ⟨hstate, (isChained_iff hroot habove hstate.within).mpr
        ⟨outer, houter, object_of_innerCall? hwrapped hinner⟩⟩
    · rintro ⟨hstate, hchained⟩
      obtain ⟨outer, houter, hobject⟩ := (isChained_iff hroot habove hstate.within).mp hchained
      obtain ⟨hwrapped, hinner⟩ := innerCall?_of_object hstate hobject
      exact ⟨outer, ⟨houter, hwrapped⟩, hinner⟩

/-- The chains at calls are the calls themselves, and all that these are made on. -/
theorem flatMap_callChain_perm (m : Module) (calls : List Call) :
    (calls.flatMap (callChain m)).Perm
      (calls ++ calls.flatMap fun call => (callChain m call).tail) := by
  have hcons := List.map_append_flatMap_perm calls id fun call => (callChain m call).tail
  rw [List.map_id] at hcons
  exact (hcons.trans (.of_eq (List.flatMap_congr fun call _ =>
    (callChain_eq_cons m call).symm))).symm

/-- What state calls are made on is handled once more, or belongs to the chains at calls that are
passed over. -/
theorem flatMap_tail_callChain_perm (hroot : m.root.node.Tidy) (habove : m.root.above = []) :
    ((stateSites m).flatMap fun call => (callChain m call).tail).Perm
      (repeatedCalls m ++
        ((stateSites m).filter fun call => isChained m call.site).flatMap (callChain m)) := by
  have hdirect : (((stateSites m).filter fun call => !isWrapped call).flatMap
      fun call => (callChain m call).tail).Perm
        (((stateSites m).filter fun call => isChained m call.site).flatMap (callChain m)) := by
    simp only [tail_callChain]
    rw [← List.flatMap_assoc, ← List.filterMap_eq_flatMap_toList]
    exact (filterMap_innerCall?_perm hroot habove).flatMap_right _
  refine ((List.filter_append_perm isWrapped (stateSites m)).flatMap_right _).symm.trans ?_
  rw [List.flatMap_append]
  exact hdirect.append_left _

/-- The calls that are handled are those of the chains at calls that are not passed over. -/
theorem stateCalls_perm_ends (m : Module) :
    (stateCalls m).Perm
      (((stateSites m).filter fun call => !isChained m call.site).flatMap (callChain m)) := by
  have hpassed : ((stateSites m).filter fun call => isChained m call.site).flatMap (chainAt m) =
      [] := by
    refine List.flatMap_eq_nil_iff.mpr fun call hcall => ?_
    have hchained : isChained m call.site = true := (List.mem_filter.mp hcall).2
    simp [chainAt, hchained]
  refine (stateCalls_perm_flatMap m).trans ?_
  refine ((List.filter_append_perm (fun call : Call => isChained m call.site)
    (stateSites m)).flatMap_right _).symm.trans ?_
  rw [List.flatMap_append, hpassed, List.nil_append]
  refine List.Perm.flatMap_left _ fun call hcall => ?_
  obtain ⟨hmem, hend⟩ := List.mem_filter.mp hcall
  have hstate := (stateCallAt?_eq_some_iff.mp (mem_stateSites_iff.mp hmem).at?).2
  rw [chainAt, hstate, Bool.not_true, Bool.false_or, if_neg (by simpa using hend)]
  exact List.reverse_perm _

/-- The calls that are handled are the state calls, and those that are handled once more. -/
theorem stateCalls_perm (hroot : m.root.node.Tidy) (habove : m.root.above = []) :
    (stateCalls m).Perm (stateSites m ++ repeatedCalls m) := by
  let passed := (stateSites m).filter fun call => isChained m call.site
  let ends := (stateSites m).filter fun call => !isChained m call.site
  have hsplit : ((stateSites m).flatMap (callChain m)).Perm
      (passed.flatMap (callChain m) ++ ends.flatMap (callChain m)) := by
    rw [← List.flatMap_append]
    exact ((List.filter_append_perm _ (stateSites m)).flatMap_right _).symm
  have hheads := flatMap_callChain_perm m (stateSites m)
  have htails := flatMap_tail_callChain_perm hroot habove
  -- The chains at the calls that are passed over are on both sides.
  refine (stateCalls_perm_ends m).trans
    ((List.perm_append_left_iff (passed.flatMap (callChain m))).mp ?_)
  refine hsplit.symm.trans (hheads.trans ((htails.append_left (stateSites m)).trans ?_))
  rw [← List.append_assoc]
  exact List.perm_append_comm

theorem repeatedCalls_eq_nil_iff : repeatedCalls m = [] ↔
    ∀ call ∈ stateSites m, isWrapped call = true → innerCall? m call = none := by
  have htail (call : Call) : (callChain m call).tail = [] ↔ innerCall? m call = none := by
    rw [tail_callChain]
    cases innerCall? m call with
    | none => simp
    | some inner =>
        rw [Option.toList_some, List.flatMap_singleton, callChain_eq_cons]
        simp
  simp only [repeatedCalls, List.flatMap_eq_nil_iff, List.mem_filter, htail, and_imp]

/-- Each state call is handled just once if and only if none is made on another in wrappers. -/
theorem stateCalls_perm_stateSites_iff (hroot : m.root.node.Tidy) (habove : m.root.above = []) :
    (stateCalls m).Perm (stateSites m) ↔
      ∀ call ∈ stateSites m, isWrapped call = true → innerCall? m call = none := by
  have hperm := stateCalls_perm hroot habove
  rw [← repeatedCalls_eq_nil_iff]
  constructor
  · intro honce
    have hlength := (honce.symm.trans hperm).length_eq
    rw [List.length_append] at hlength
    exact List.eq_nil_of_length_eq_zero (by omega)
  · intro hnil
    rwa [hnil, List.append_nil] at hperm

/-- A call in wrappers that another one is made on is handled once more. -/
theorem mem_repeatedCalls {call inner : Call} (hcall : call ∈ stateSites m)
    (hwrapped : isWrapped call = true) (hinner : innerCall? m call = some inner) :
    inner ∈ repeatedCalls m := by
  refine List.mem_flatMap.mpr ⟨call, List.mem_filter.mpr ⟨hcall, hwrapped⟩, ?_⟩
  rw [tail_callChain, hinner, Option.toList_some, List.flatMap_singleton, callChain_eq_cons]
  exact List.mem_cons_self

end Chains

/-! ### Routes -/

/-- Steps with one answer each have one answer together. -/
theorem gives_mapM {α β : Type} {scene : Scene} {chain : List String} {xs : List α}
    {step : α → Lookup β} {answer : α → β} (h : ∀ x, Gives scene chain (step x) (answer x)) :
    Gives scene chain (xs.mapM step) (xs.map answer) := by
  induction xs with
  | nil => exact .pure scene chain []
  | cons x xs ih =>
      rw [List.mapM_cons]
      exact (h x).bind (ih.bind (.pure scene chain _))

/-- The route that a call registers, if it does. -/
def routeAt (scene : Scene) (m : Module) (call : Call) : Option Route :=
  answerAt scene [m.path.key] (registeredRoute? m call)

/-- The routes of a script are those of the calls that are handled, in their order. -/
theorem routes_start (scene : Scene) (m : Module) :
    (routes m scene (.start m.path)).1 = (stateCalls m).filterMap (routeAt scene m) := by
  have hcalls : Gives scene [m.path.key] ((stateCalls m).mapM (registeredRoute? m))
      ((stateCalls m).map (routeAt scene m)) :=
    gives_mapM fun call => (composed_registeredRoute? m call).gives scene (List.cons_ne_nil _ _)
  have hroutes : Gives scene [m.path.key] (routes m)
      (((stateCalls m).map (routeAt scene m)).filterMap id) :=
    hcalls.bind (.pure scene _ _)
  rw [(hroutes (.start m.path) rfl).1, List.filterMap_map, Function.id_comp]

end Analysis

open Analysis

/-- **Each state call registers its route once.**  The routes of a script are those of the calls
that are handled, and these are the state calls of the script, each once, and once more whatever a
state call on something in wrappers is made on.  So no call is left out, and each is handled just
once if and only if no state call is made on another one in parentheses, or in a conversion or
assertion.  The calls of a chain are handled in the order in which they are written. -/
theorem state_calls_handled_once_iff (scene : Scene) (origin : Path) (text : String) :
    let m := Module.ofText origin text
    (∀ call, call ∈ stateSites m ↔ ∃ c, Within m.root c ∧ Call.at? m c = some call ∧
      call.isMethod stateMethod = true) ∧
    ((stateSites m).map Call.site).Nodup ∧
    (routes m scene (.start origin)).1 = (stateCalls m).filterMap (routeAt scene m) ∧
    (stateCalls m).Perm (stateSites m ++ repeatedCalls m) ∧
    ((stateCalls m).Perm (stateSites m) ↔
      ∀ call ∈ stateSites m, isWrapped call = true → innerCall? m call = none) ∧
    ∀ call ∈ stateSites m, (chainAt m call).Pairwise EndsBefore := by
  intro m
  have hroot : m.root.node.Tidy := Module.tidy_ofText origin text
  refine ⟨fun call => ?_, nodup_stateSites hroot, routes_start scene m, stateCalls_perm hroot rfl,
    stateCalls_perm_stateSites_iff hroot rfl, fun call hcall => ?_⟩
  · simp only [stateSites, List.mem_filterMap, mem_preOrder_iff, stateCallAt?_eq_some_iff]
  · unfold chainAt
    split
    · exact .nil
    · exact List.pairwise_reverse.mpr ((mem_stateSites_iff.mp hcall).chain hroot).1

/-! ### A chain with parentheses and one without -/

namespace Chained

def origin : Path :=
  ⟨"/a.js"⟩

def direct : String :=
  "s.state('a', \x7b\x7d).state('b', \x7b\x7d)"

def wrapped : String :=
  "(s.state('a', \x7b\x7d)).state('b', \x7b\x7d)"

def scene : Scene where
  root := ⟨"/"⟩
  files := {}

end Chained

open Chained

/-- Without parentheses both calls are handled once. -/
theorem direct_state_calls_handled_once :
    (stateSites (.ofText origin direct)).length = 2 ∧
      (stateCalls (.ofText origin direct)).Perm (stateSites (.ofText origin direct)) := by
  obtain ⟨htwo, hdirect⟩ : (stateSites (.ofText origin direct)).length = 2 ∧
      ∀ call ∈ stateSites (.ofText origin direct), isWrapped call = false := by
    decide +kernel
  obtain ⟨-, -, -, -, honce, -⟩ := state_calls_handled_once_iff scene origin direct
  refine ⟨htwo, honce.mpr fun call hcall hwrapped => ?_⟩
  rw [hdirect call hcall] at hwrapped
  cases hwrapped

/-- With parentheses the route of the first call is registered once more. -/
theorem wrapped_state_calls_not_handled_once :
    ¬ (routes (.ofText origin wrapped) scene (.start origin)).1.Perm
      ((stateSites (.ofText origin wrapped)).filterMap
        (routeAt scene (.ofText origin wrapped))) := by
  obtain ⟨outer, houter, hwrapped, hany⟩ : ∃ call ∈ stateSites (.ofText origin wrapped),
      isWrapped call = true ∧ ((innerCall? (.ofText origin wrapped) call).any fun inner =>
        (routeAt scene (.ofText origin wrapped) inner).isSome) = true := by
    decide +kernel
  obtain ⟨inner, hinner, hroute⟩ := (Option.any_eq_true _ _).mp hany
  have hrepeated := mem_repeatedCalls houter hwrapped hinner
  have hroutes := ((stateCalls_perm (Module.tidy_ofText origin wrapped) rfl).filterMap
    (routeAt scene (.ofText origin wrapped)))
  rw [← routes_start, List.filterMap_append] at hroutes
  intro honce
  have hlength := (honce.symm.trans hroutes).length_eq
  rw [List.length_append] at hlength
  have hnil : (repeatedCalls (.ofText origin wrapped)).filterMap
      (routeAt scene (.ofText origin wrapped)) = [] :=
    List.eq_nil_of_length_eq_zero (by omega)
  rw [List.filterMap_eq_nil_iff.mp hnil inner hrepeated] at hroute
  cases hroute

end NgIndex
