import Protobind.Compile.Request
import Protobind.Module.Statement
import Protobind.Proofs.Basic

/-!
# Steps of planning

How a planner that succeeds comes apart into its steps, and how a property of all steps becomes one
of the whole (`Laws`). The first such property: nothing is taken back, and what the modules of other
files offer stays as it is (`Grows`).
-/

namespace Protobind

open List

variable {α β : Type} {a : α} {ctx : Context} {decl : FieldDecl} {file : NodeId}
  {r : Except GenerateError α} {s s' s'' : PlanState} {type? : Option TypeUse} {typeName : String}
  {u : Unit} {x : Planner α} {f : α → Planner β}

/-- The two names of a member differ, so they can be allocated together. -/
theorem Name.nodup_pair (name : String) : [name, "get_" ++ name].Nodup := by
  have hne : name ≠ "get_" ++ name := fun he => by
    have := congrArg String.length he
    simp at this
  simpa using hne

/-- The symbols that the module of a file offers for a node. -/
def PlanState.offered (s : PlanState) (file node : NodeId) : List Symbol :=
  (s.exports.get? (file, node)).getD []

/-- Whether a state came from another one while the module of a file was planned. -/
structure PlanState.Grows (file : NodeId) (s s' : PlanState) : Prop where
  used : s.usedFiles ⊆ s'.usedFiles
  constants : s.constants ⊆ s'.constants
  offered : ∀ node, s.offered file node ⊆ s'.offered file node
  others : ∀ other node, other ≠ file → s'.offered other node = s.offered other node

theorem PlanState.Grows.refl (file : NodeId) (s : PlanState) : s.Grows file s where
  used := List.Subset.refl _
  constants := List.Subset.refl _
  offered _ := List.Subset.refl _
  others _ _ _ := rfl

theorem PlanState.Grows.trans (h : s.Grows file s') (h' : s'.Grows file s'') :
    s.Grows file s'' where
  used := List.Subset.trans h.used h'.used
  constants := List.Subset.trans h.constants h'.constants
  offered node := List.Subset.trans (h.offered node) (h'.offered node)
  others other node hne := (h'.others other node hne).trans (h.others other node hne)

namespace Planner

/-! ## Sequences -/

theorem bind_ok {b : β} :
    (x >>= f) s = .ok b s'' ↔ ∃ a s', x s = .ok a s' ∧ f a s' = .ok b s'' := by
  show EStateM.bind x f s = .ok b s'' ↔ _
  unfold EStateM.bind
  cases x s with
  | ok a s' =>
    constructor
    · exact fun h => ⟨a, s', rfl, h⟩
    · rintro ⟨_, _, ⟨⟩, h⟩
      exact h
  | error e s' =>
    constructor
    · intro h
      cases h
    · rintro ⟨_, _, h, _⟩
      cases h

theorem pure_ok {b : α} : (pure a : Planner α) s = .ok b s' ↔ a = b ∧ s = s' := by
  show EStateM.Result.ok a s = .ok b s' ↔ _
  rw [EStateM.Result.ok.injEq]

theorem ofExcept_ok : ofExcept r s = .ok a s' ↔ r = .ok a ∧ s = s' := by
  cases r with
  | ok b => exact pure_ok.trans (by rw [Except.ok.injEq])
  | error e =>
    constructor
    · intro h
      cases h
    · rintro ⟨h, _⟩
      cases h

theorem ofReported_ok {r : Except CompileError α} :
    ofReported r s = .ok a s' ↔ r = .ok a ∧ s = s' := by
  unfold ofReported
  rw [ofExcept_ok, mapError_eq_ok]

theorem checked_ok {plan : ModulePlan} (h : checked plan s = .ok u s') : s' = s := by
  unfold checked at h
  cases hcheck : plan.check with
  | ok _ =>
    rw [hcheck] at h
    exact (pure_ok.mp h).2.symm
  | error e =>
    rw [hcheck] at h
    cases h

theorem file_planModule {f : FileNode} {plan : ModulePlan} (h : planModule ctx file f s = .ok plan s') :
    plan.file = f.decl.name ∧ ∃ t,
      planImports ctx f.decl (withPositions f.decl.dependencies) t = .ok plan.imports s' := by
  obtain ⟨_, _, _, h⟩ := bind_ok.mp h
  obtain ⟨_, _, _, h⟩ := bind_ok.mp h
  obtain ⟨_, _, _, h⟩ := bind_ok.mp h
  obtain ⟨_, _, _, h⟩ := bind_ok.mp h
  obtain ⟨_, t, _, h⟩ := bind_ok.mp h
  obtain ⟨_, _, himports, h⟩ := bind_ok.mp h
  obtain ⟨rfl, rfl⟩ := pure_ok.mp h
  exact ⟨rfl, t, himports⟩

/-- Each file is planned in the state that the files before it leave. -/
theorem planFiles_cons {comments : String → Comments} {id : NodeId} {ids : List NodeId}
    {f : FileNode} {plans : Dictionary String ModulePlan} (hf : ctx.arena.file? id = some f)
    (h : planFiles ctx comments (id :: ids) s = .ok plans s') : ∃ t plan t' rest,
      write [⟨.debug, s!"Generating {f.decl.name}"⟩] s = .ok () t ∧
      planModule ctx id f t = .ok plan t' ∧ planFiles ctx comments ids t' = .ok rest s' ∧
      plans = if f.generate then (f.decl.name, plan.annotated comments) :: rest else rest := by
  simp only [planFiles, hf] at h
  obtain ⟨_, t, hwrite, h⟩ := bind_ok.mp h
  obtain ⟨plan, t', hplan, h⟩ := bind_ok.mp h
  split at h
  · rename_i hgenerate
    obtain ⟨_, t'', hcheck, h⟩ := bind_ok.mp h
    obtain ⟨rest, _, hrest, h⟩ := bind_ok.mp h
    obtain ⟨rfl, rfl⟩ := pure_ok.mp h
    exact ⟨t, plan, t', rest, hwrite, hplan, checked_ok hcheck ▸ hrest, (if_pos hgenerate).symm⟩
  · rename_i hgenerate
    obtain ⟨rest, _, hrest, h⟩ := bind_ok.mp h
    obtain ⟨rfl, rfl⟩ := pure_ok.mp h
    exact ⟨t, plan, t', rest, hwrite, hplan, hrest, (if_neg hgenerate).symm⟩

/-! ## Properties of steps -/

theorem offered_offer {node : NodeId} {symbol : Symbol} (h : offer file node symbol s = .ok u s')
    (other n : NodeId) :
    s'.offered other n =
      if (file, node) = (other, n) then s.offered file node ++ [symbol] else s.offered other n := by
  cases h
  unfold PlanState.offered
  rw [Dictionary.get?_set]
  by_cases hkey : (file, node) = (other, n)
  · rw [if_pos hkey, if_pos (beq_iff_eq.mpr hkey), Option.getD_some]
  · rw [if_neg hkey, if_neg (mt beq_iff_eq.mp hkey)]

/-- Whether the type of a field, as a file sees it, is the entry of a map. -/
def HasEntry (ctx : Context) (file : NodeId) (decl key value : FieldDecl) : Prop :=
  ∃ node entries m, ctx.resolve decl.typeName file = .ok (node, entries) ∧
    ctx.arena.message? (ctx.arena.target node) = some m ∧ m.decl.isMapEntry = true ∧
    m.decl.fields = [key, value]

/-- Whether a field is a map that holds maps, and so on, for a number of levels. -/
def NestsMaps (ctx : Context) (file : NodeId) : Nat → FieldDecl → Prop
  | 0, _ => True
  | depth + 1, decl => ∃ key value, HasEntry ctx file decl key value ∧
    (NestsMaps ctx file depth key ∨ NestsMaps ctx file depth value)

/-- A property of planners that single steps have and sequences keep. `known` tells the fields that
are planned, and `allowed` what a step may throw. -/
structure Laws (ctx : Context) (file : NodeId) (known : FieldDecl → Prop)
    (allowed : GenerateError → Prop) (P : ∀ {α : Type}, Planner α → Prop) : Prop where
  pure {α : Type} (a : α) : P (pure a : Planner α)
  bind {α β : Type} {x : Planner α} {f : α → Planner β} : P x →
    (∀ ⦃a s s'⦄, x s = .ok a s' → P (f a)) → P (x >>= f)
  throw {α : Type} {e : GenerateError} : allowed e → P (throw e : Planner α)
  get : P (get : Planner PlanState)
  modify {f : PlanState → PlanState} : (∀ s : PlanState, s.Grows file (f s)) →
    P (modify f : Planner Unit)
  reported (e : CompileError) : allowed (.reported e)
  tag {decl : FieldDecl} {proto3 : Bool} {name? : Option String}
    {values? : Option (List (String × Int))} {e : GenerateError} :
    known decl → decl.tag proto3 name? values? = .error e → allowed e
  defaultExpr {decl : FieldDecl} {module? : Option String} {start : String} {e : GenerateError} :
    known decl → decl.defaultExpr module? start = .error e → allowed e
  entry {decl key value : FieldDecl} : HasEntry ctx file decl key value → known key ∧ known value
  endless {decl : FieldDecl} : known decl → NestsMaps ctx file (ctx.arena.size + 1) decl →
    allowed (.fatal .endlessMap)

theorem typeReference_ok {t : TypeUse} (h : typeReference ctx file typeName s = .ok t s') :
    ∃ node entries, ctx.resolve typeName file = .ok (node, entries) ∧ t = typeUse ctx file node ∧
      (t.provider ≠ file → ctx.arena.name t.provider ∈ s'.usedFiles) := by
  obtain ⟨⟨node, entries⟩, t, hstep, h⟩ := bind_ok.mp h
  obtain ⟨hresolve, rfl⟩ := ofReported_ok.mp hstep
  obtain ⟨_, u, _, h⟩ := bind_ok.mp h
  refine ⟨node, entries, hresolve, ?_⟩
  dsimp only at h
  split at h
  · obtain ⟨_, v, huse, h⟩ := bind_ok.mp h
    obtain ⟨rfl, rfl⟩ := pure_ok.mp h
    cases huse
    exact ⟨rfl, fun _ => mem_append_right _ mem_cons_self⟩
  · rename_i hown
    obtain ⟨rfl, rfl⟩ := pure_ok.mp h
    exact ⟨rfl, fun hne => absurd hne hown⟩

theorem fieldType?_ok (h : fieldType? ctx file decl s = .ok type? s') :
    (decl.namesType = false ∧ type? = none) ∨ decl.namesType = true ∧ ∃ t,
      type? = some t ∧ typeReference ctx file decl.typeName s = .ok t s' := by
  unfold fieldType? at h
  split at h
  · rename_i hdecl
    obtain ⟨t, _, ht, h⟩ := bind_ok.mp h
    obtain ⟨rfl, rfl⟩ := pure_ok.mp h
    exact .inr ⟨hdecl, t, rfl, ht⟩
  · rename_i hdecl
    obtain ⟨rfl, rfl⟩ := pure_ok.mp h
    exact .inl ⟨by simpa using hdecl, rfl⟩

/-- A field is planned as a map only if its type is the entry of a map. -/
theorem hasEntry_of_fieldType {key value : FieldDecl} {proto3 : Bool}
    (h : fieldType? ctx file decl s = .ok type? s')
    (hentry : type?.bind (·.mapFields?) = some (key, value, proto3)) :
    HasEntry ctx file decl key value := by
  rcases fieldType?_ok h with ⟨_, rfl⟩ | ⟨_, t, rfl, ht⟩
  · cases hentry
  · obtain ⟨node, entries, hresolve, rfl, _⟩ := typeReference_ok ht
    have hentry : mapEntryOf? ctx node = some (key, value, proto3) := hentry
    cases hm : ctx.arena.message? (ctx.arena.target node) with
    | none => simp [mapEntryOf?, hm] at hentry
    | some m =>
      refine ⟨node, entries, m, hresolve, hm, ?_⟩
      simp only [mapEntryOf?, hm, Option.bind_eq_bind, Option.bind_some] at hentry
      split at hentry
      · rename_i hmap
        split at hentry
        · rename_i hfields
          cases hentry
          exact ⟨hmap, hfields⟩
        · cases hentry
      · cases hentry

namespace Laws

variable {known : FieldDecl → Prop} {allowed : GenerateError → Prop}
  {P : ∀ {α : Type}, Planner α → Prop} (h : Laws ctx file known allowed P)

include h

theorem next (hx : P x) (hf : ∀ a, P (f a)) : P (x >>= f) :=
  h.bind hx fun a _ _ _ => hf a

theorem write (entries : List LogEntry) : P (write entries) :=
  h.modify fun _ =>
    ⟨List.Subset.refl _, List.Subset.refl _, fun _ => List.Subset.refl _, fun _ _ _ => rfl⟩

theorem useFile (name : String) : P (useFile name) :=
  h.modify fun _ => ⟨subset_append_left _ _, List.Subset.refl _,
    fun _ => List.Subset.refl _, fun _ _ _ => rfl⟩

theorem addConstant (name : String) : P (addConstant name) :=
  h.modify fun _ => ⟨List.Subset.refl _, subset_append_left _ _,
    fun _ => List.Subset.refl _, fun _ _ _ => rfl⟩

theorem offer (node : NodeId) (symbol : Symbol) : P (offer file node symbol) := by
  refine h.modify fun s => ⟨List.Subset.refl _, List.Subset.refl _, fun n => ?_,
    fun other n hne => ?_⟩
  · refine (offered_offer (s := s) rfl file n).symm ▸ ?_
    split
    · rename_i hkey
      cases hkey
      exact subset_append_left _ _
    · exact List.Subset.refl _
  · exact (offered_offer (s := s) rfl other n).trans
      (if_neg fun hkey => hne (congrArg Prod.fst hkey).symm)

theorem ofExcept (hr : ∀ e, r = .error e → allowed e) : P (ofExcept r) := by
  cases r with
  | ok a => exact h.pure a
  | error e => exact h.throw (hr e rfl)

theorem ofReported (r : Except CompileError α) : P (ofReported r) := by
  refine h.ofExcept fun e he => ?_
  cases r with
  | ok a => cases he
  | error e =>
    cases he
    exact h.reported e

theorem mapM (hf : ∀ a, P (f a)) : ∀ as : List α, P (as.mapM f)
  | [] => by
    rw [mapM_nil]
    exact h.pure _
  | a :: as => by
    rw [mapM_cons]
    exact h.next (hf a) fun _ => h.next (mapM hf as) fun _ => h.pure _

theorem forM {f : α → Planner Unit} (hf : ∀ a, P (f a)) : ∀ as : List α, P (as.forM f)
  | [] => h.pure _
  | a :: as => h.next (hf a) fun _ => forM hf as

omit h in
theorem ite {y : Planner α} {c : Prop} [Decidable c] (hx : P x) (hy : P y) :
    P (if c then x else y) := by
  split
  · exact hx
  · exact hy

theorem typeReference (typeName : String) : P (typeReference ctx file typeName) := by
  refine h.next (h.ofReported _) fun _ => h.next (h.write _) fun _ => ?_
  exact ite (h.next (h.useFile _) fun _ => h.pure _) (h.pure _)

theorem fieldType? (decl : FieldDecl) : P (fieldType? ctx file decl) :=
  ite (h.next (h.typeReference _) fun _ => h.pure _) (h.pure _)

/-- The end of the levels is reached only by maps that are nested as deep. -/
theorem bindField : ∀ (depth : Nat) (proto3 : Bool) {decl : FieldDecl} (attr getter : String),
    known decl → (NestsMaps ctx file depth decl → allowed (.fatal .endlessMap)) →
      P (bindField ctx file depth proto3 decl attr getter)
  | 0, _, _, _, _, _, hend => h.throw (hend trivial)
  | depth + 1, proto3, decl, attr, getter, hdecl, hend => by
    have hlast {hint : String} {type? : Option TypeUse}
        {entries? : Option (FieldEntry × FieldEntry)} :
        P (bindAs proto3 decl attr getter hint type? entries?) :=
      h.next (h.ofExcept fun _ he => h.tag hdecl he) fun _ => h.pure _
    refine h.bind (h.fieldType? decl) fun type? s s' htype => ?_
    split
    · rename_i key value entryProto3 hentry
      have hnested := hasEntry_of_fieldType htype hentry
      obtain ⟨hkey, hvalue⟩ := h.entry hnested
      refine h.next (bindField depth _ _ _ hkey ?_) fun _ => h.next (bindField depth _ _ _ hvalue ?_)
        fun _ => hlast
      · exact fun hn => hend ⟨key, value, hnested, .inl hn⟩
      · exact fun hn => hend ⟨key, value, hnested, .inr hn⟩
    · exact hlast

theorem defaultConstant (className : String) {b : FieldBinding} (hb : known b.decl) :
    P (defaultConstant className b) := by
  unfold Planner.defaultConstant
  refine ite (h.pure _) (ite (h.next (h.write _) fun _ => h.pure _) ?_)
  refine h.next (h.ofExcept fun _ he => h.defaultExpr hb he) fun expr? => ?_
  split
  · exact h.pure _
  · exact h.next h.get fun _ => h.next (h.addConstant _) fun _ => h.pure _

theorem planEnum (node : NodeId) : P (planEnum ctx file node) := by
  unfold Planner.planEnum
  split
  · exact h.pure _
  · refine h.next (h.offer _ _) fun _ => h.next (h.mapM (fun _ => ?_) _) fun _ => h.pure _
    exact h.next (h.offer _ _) fun _ => h.pure _

theorem allocateMember (a : Name.Allocator) (name : String) : P (allocateMember a name) := by
  unfold Planner.allocateMember allocate Name.Allocator.allocate
  rw [if_pos (Name.nodup_pair name)]
  exact h.next (h.pure _) fun result => by split <;> exact h.pure _

theorem bindFields (proto3 : Bool) : ∀ (decls : List FieldDecl) (a : Name.Allocator),
    (∀ decl ∈ decls, known decl) → P (bindFields ctx file proto3 a decls)
  | [], _, _ => h.pure _
  | decl :: decls, a, hdecls => by
    obtain ⟨hdecl, hdecls⟩ := forall_mem_cons.mp hdecls
    refine h.next (h.allocateMember a decl.name) fun (_, _, a) => ?_
    refine h.next (h.bindField _ _ _ _ hdecl (h.endless hdecl)) fun _ => ?_
    exact h.next (bindFields proto3 decls a hdecls) fun _ => h.pure _

theorem groupFields (className : String) (decls : List OneofDecl) :
    ∀ (bs : List FieldBinding) (taken : List String) (groups : Groups) (a : Name.Allocator),
      (∀ b ∈ bs, b.decl.inOneof → indexed? decls b.decl.oneofIndex = none →
        allowed (.fatal .indexOutOfRange)) → P (groupFields className decls taken groups a bs)
  | [], _, _, _, _ => h.pure _
  | b :: bs, taken, groups, a, hbs => by
    obtain ⟨hb, hbs⟩ := forall_mem_cons.mp hbs
    unfold Planner.groupFields groupAt
    split
    · rename_i hin
      refine h.next ?_ fun _ => groupFields className decls bs _ _ _ hbs
      split
      · exact h.pure _
      · split
        · rename_i hindex
          exact h.throw (hb hin hindex)
        · exact h.next (h.allocateMember a _) fun _ => h.pure _
    · exact groupFields className decls bs _ _ _ hbs

theorem defaultConstants (className : String) : ∀ (bs : List FieldBinding)
    (defaults : Dictionary Int (String × DefaultExpr)), (∀ b ∈ bs, known b.decl) →
      P (defaultConstants className defaults bs)
  | [], _, _ => h.pure _
  | b :: bs, defaults, hbs => by
    obtain ⟨hb, hbs⟩ := forall_mem_cons.mp hbs
    refine h.next (h.defaultConstant className hb) fun default? => ?_
    split <;> exact defaultConstants className bs _ hbs

/-- Planning a message has every property that its steps keep. -/
theorem planMessage (node : NodeId) {m : MessageNode}
    (hfields : ∀ decl ∈ m.decl.fields, known decl)
    (hbound : ∀ {proto3 a bs a' s s'},
      Planner.bindFields ctx file proto3 a m.decl.fields s = .ok (bs, a') s' → ∀ b ∈ bs,
        known b.decl ∧ (b.decl.inOneof → indexed? m.decl.oneofs b.decl.oneofIndex = none →
          allowed (.fatal .indexOutOfRange))) :
    P (planMessage ctx file node m) := by
  refine h.bind (h.bindFields _ _ _ hfields) fun (bindings, a) s s' hbind => ?_
  refine h.next (h.groupFields _ _ _ _ _ _ fun b hb => (hbound hbind b hb).2) fun groups => ?_
  refine h.next (h.defaultConstants _ _ _ fun b hb => (hbound hbind b hb).1) fun defaults => ?_
  have hlast {α : Type} (a : α) : P (do
      defaults.forM fun d => Planner.offer file node (.const d.2.1)
      Pure.pure a : Planner α) :=
    h.next (h.forM (fun _ => h.offer _ _) _) fun _ => h.pure _
  exact ite (h.next (h.offer _ _) fun _ => hlast _) (hlast _)

theorem useTypes : ∀ names : List String, P (useTypes ctx file names)
  | [] => h.pure _
  | name :: names => h.next (h.typeReference name) fun _ => useTypes names

theorem forwardSymbols (target : NodeId) : ∀ symbols : List Symbol,
    P (forwardSymbols ctx file target symbols)
  | [] => h.pure _
  | symbol :: symbols => by
    refine h.next (h.useTypes _) fun _ => ?_
    have hrest := h.next (h.offer target symbol) fun _ => forwardSymbols target symbols
    split
    · exact h.next (h.addConstant _) fun _ => hrest
    · exact hrest

theorem planForward (node : NodeId) : P (planForward ctx file node) := by
  unfold Planner.planForward
  split
  · refine h.next h.get fun _ => ?_
    split
    · exact h.pure _
    · exact h.next (h.useFile _) fun _ => h.next (h.forwardSymbols _ _) fun _ => h.pure _
  · exact h.pure _

theorem planExtension (node : NodeId) (hdecl : known decl) :
    P (planExtension ctx file node decl) := by
  refine h.next (h.typeReference _) fun extendee => ?_
  have hlast {α : Type} {type? : Option TypeUse} (symbol : Symbol) (result : String → α) :
      P (do
        let tag ← Planner.ofExcept (tagOf extendee.isProto3 decl type?)
        Planner.offer file node symbol
        Pure.pure (result tag) : Planner α) :=
    h.next (h.ofExcept fun _ he => h.tag hdecl he) fun _ => h.next (h.offer _ _) fun _ => h.pure _
  have hrest {α : Type} {next : Option TypeUse → Planner α}
      (hnext : ∀ type?, P (next type?)) : P (do
        let type? ←
          if decl.typeName.isEmpty then Pure.pure none
          else do Pure.pure (some (← Planner.typeReference ctx file decl.typeName))
        next type?) :=
    ite (h.next (h.pure _) fun _ => hnext _)
      (h.next (h.typeReference _) fun _ => h.next (h.pure _) fun _ => hnext _)
  exact ite (h.next (h.throw (h.reported _)) fun _ => hrest fun _ => hlast _ _)
    (hrest fun _ => hlast _ _)

theorem planExtensions : ∀ nodes : List NodeId,
    (∀ node ∈ nodes, ∀ decl, ctx.arena.extension? node = some decl → known decl) →
      P (planExtensions ctx file nodes)
  | [], _ => h.pure _
  | node :: nodes, hnodes => by
    obtain ⟨hnode, hnodes⟩ := forall_mem_cons.mp hnodes
    unfold Planner.planExtensions
    split
    · exact planExtensions nodes hnodes
    · rename_i decl hdecl
      exact h.next (h.planExtension node (hnode decl hdecl)) fun _ =>
        h.next (planExtensions nodes hnodes) fun _ => h.pure _

theorem planImports (decl : FileDecl) : ∀ rest : List (Nat × String), P (planImports ctx decl rest)
  | [] => h.pure _
  | (i, name) :: rest => by
    refine h.next (h.ofReported _) fun _ => ite (h.next (h.write _) fun _ => ?_)
      (h.next h.get fun _ => ?_)
    · exact h.next (planImports decl rest) fun _ => h.pure _
    · exact h.next (planImports decl rest) fun _ => h.pure _

theorem planMessages
    (hmessages : ∀ {node m}, ctx.arena.message? node = some m → P (Planner.planMessage ctx file node m)) :
    ∀ nodes : List NodeId, P (planMessages ctx file nodes)
  | [] => h.pure _
  | node :: nodes => by
    unfold Planner.planMessages
    split
    · exact planMessages hmessages nodes
    · rename_i m hm
      exact ite (planMessages hmessages nodes)
        (h.next (hmessages hm) fun _ => h.next (planMessages hmessages nodes) fun _ => h.pure _)

end Laws

/-! ## Growing -/

/-- Whether a step takes nothing back, and changes only what the module of a file offers. -/
def Grows (file : NodeId) (x : Planner α) : Prop :=
  ∀ ⦃s a s'⦄, x s = .ok a s' → s.Grows file s'

theorem Grows.of_same (h : ∀ ⦃s a s'⦄, x s = .ok a s' → s = s') : Grows file x := by
  intro s a s' ha
  rw [h ha]
  exact .refl file s'

section

variable (ctx : Context) (file : NodeId)

/-- Growing is such a property. -/
theorem growing : Laws ctx file (fun _ => True) (fun _ => True) (fun x => Grows file x) where
  pure _ := .of_same fun _ _ _ h => (pure_ok.mp h).2
  bind hx hf := by
    intro s b s'' h
    obtain ⟨a, s', ha, h⟩ := bind_ok.mp h
    exact (hx ha).trans (hf ha h)
  throw _ := .of_same fun _ _ _ h => by cases h
  get := .of_same fun _ _ _ h => by cases h; rfl
  modify hf := by
    intro s a s' h
    cases h
    exact hf s
  reported _ := trivial
  tag _ _ := trivial
  defaultExpr _ _ := trivial
  entry _ := ⟨trivial, trivial⟩
  endless _ _ := trivial

end

theorem Grows.bind (hx : Grows file x) (hf : ∀ a, Grows file (f a)) :
    Grows file (x >>= f) := (growing {} file).next hx hf

theorem Grows.pure (a : α) : Grows file (pure a) := (growing {} file).pure a

theorem Grows.ofExcept (r : Except GenerateError α) : Grows file (ofExcept r) :=
  (growing {} file).ofExcept fun _ _ => trivial

theorem Grows.mapM (hf : ∀ a, Grows file (f a)) (as : List α) :
    Grows file (as.mapM f) := (growing {} file).mapM hf as

theorem Grows.forM {f : α → Planner Unit} (hf : ∀ a, Grows file (f a)) (as : List α) :
    Grows file (as.forM f) := (growing {} file).forM hf as

theorem Grows.offer (node : NodeId) (symbol : Symbol) : Grows file (offer file node symbol) :=
  (growing {} file).offer node symbol

/-- A step is done for every element, in states that grow out of each other. -/
theorem mapM_steps (hf : ∀ a, Grows file (f a)) :
    ∀ {as : List α} {bs : List β} {s s' : PlanState}, as.mapM f s = .ok bs s' →
      Forall₂ (fun a b => ∃ t t', s.Grows file t ∧ f a t = .ok b t' ∧ t'.Grows file s') as bs
  | [], bs, s, s', h => by
    rw [mapM_nil] at h
    obtain ⟨rfl, _⟩ := pure_ok.mp h
    exact .nil
  | a :: as, bs, s, s', h => by
    rw [mapM_cons] at h
    obtain ⟨b, t, hb, h⟩ := bind_ok.mp h
    obtain ⟨rest, t', hrest, h⟩ := bind_ok.mp h
    obtain ⟨rfl, rfl⟩ := pure_ok.mp h
    refine .cons ⟨s, t, .refl file s, hb, Grows.mapM hf as hrest⟩ ?_
    exact (mapM_steps hf hrest).imp fun _ _ ⟨u, u', hu, hstep⟩ => ⟨u, u', (hf a hb).trans hu, hstep⟩

section

variable (ctx : Context) (file : NodeId)

theorem grows_planMessage (node : NodeId) (m : MessageNode) :
    Grows file (planMessage ctx file node m) :=
  (growing ctx file).planMessage node (fun _ _ => trivial) fun _ _ _ =>
    ⟨trivial, fun _ _ => trivial⟩

theorem grows_planMessages (nodes : List NodeId) :
    Grows file (planMessages ctx file nodes) :=
  (growing ctx file).planMessages (fun _ => grows_planMessage ctx file _ _) nodes

end

end Planner

end Protobind
