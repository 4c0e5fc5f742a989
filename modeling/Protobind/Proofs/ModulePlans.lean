import Protobind.Proofs.References

/-!
# Plans of modules

What the plan of a module contains, and what the module offers to others (`Planned`): the classes of
its file with their symbols, the symbols of its public imports, its imports, and the expressions for
types.
-/

namespace Protobind

open List

variable {decl : FieldDecl} {e : ExtensionPlan} {entries : List Registration} {f : FileNode}
  {node target : NodeId} {s s' : PlanState}

/-- The identifier under which modules refer to the module of a file. -/
def Context.packageOf (ctx : Context) (file : NodeId) : String :=
  ((ctx.arena.file? file).map (·.packageName)).getD ""

namespace Planner

section

variable {ctx : Context} {file : NodeId}

/-- What is planned and offered for an enum. -/
structure EnumPlanned (ctx : Context) (node : NodeId) (decl : EnumDecl) (symbols : List Symbol)
    (e : EnumPlan) : Prop where
  name : e.name = ctx.arena.camelName node
  indexes : e.indexes = ctx.arena.indexes node
  constants : ∀ v ∈ decl.values, ∃ c ∈ e.constants,
    c.name = ctx.arena.constantPrefix node ++ v.name ∧ c.label = v.name
  numbers : e.constants.map (fun c => (c.name, c.number)) =
    decl.numbers.map fun v => (ctx.arena.constantPrefix node ++ v.1, v.2)
  classOffered : .enum (ctx.arena.camelName node) ∈ symbols
  constantsOffered : ∀ v ∈ decl.values, .const (ctx.arena.constantPrefix node ++ v.name) ∈ symbols

theorem mem_withPositions {α : Type} {items : List α} {i : Nat} {x : α} (h : items[i]? = some x) :
    (i, x) ∈ withPositions items := by
  obtain ⟨hlt, _⟩ := List.getElem?_eq_some_iff.mp h
  refine mem_of_getElem? (getElem?_zip_eq_some.mpr ⟨?_, h⟩)
  exact getElem?_range hlt

theorem mem_offered_offer {symbol : Symbol} {u : Unit} (h : offer file node symbol s = .ok u s') :
    symbol ∈ s'.offered file node := by
  rw [offered_offer h, if_pos rfl]
  exact mem_append_right _ mem_cons_self

theorem planEnum_ok {decl : EnumDecl} {e? : Option EnumPlan}
    (hdecl : ctx.arena.enum? node = some decl) (h : planEnum ctx file node s = .ok e? s') :
    ∃ e, e? = some e ∧ EnumPlanned ctx node decl (s'.offered file node) e := by
  unfold planEnum at h
  rw [hdecl] at h
  obtain ⟨_, t, hclass, h⟩ := bind_ok.mp h
  obtain ⟨constants, u, hconstants, h⟩ := bind_ok.mp h
  obtain ⟨rfl, rfl⟩ := pure_ok.mp h
  have hstep (p : Nat × EnumValueDecl) : Grows file (do
      offer file node (.const (ctx.arena.constantPrefix node ++ p.2.name))
      pure ({ path := s!"{ctx.arena.path node},{Arena.valuePath},{p.1}"
              name := ctx.arena.constantPrefix node ++ p.2.name, label := p.2.name
              number := p.2.number } : EnumConstant)) :=
    (Grows.offer _ _).bind fun _ => .pure _
  have hall := mapM_steps hstep hconstants
  have hvalue (v : EnumValueDecl) (hv : v ∈ decl.values) : ∃ c ∈ constants,
      (c.name = ctx.arena.constantPrefix node ++ v.name ∧ c.label = v.name) ∧
        .const (ctx.arena.constantPrefix node ++ v.name) ∈ u.offered file node := by
    obtain ⟨i, hi⟩ := mem_iff_getElem?.mp hv
    obtain ⟨c, hc, t, t', _, hstep, hgrows⟩ := exists_of_forall₂ hall (mem_withPositions hi)
    obtain ⟨_, t'', hoffer, hstep⟩ := bind_ok.mp hstep
    obtain ⟨rfl, rfl⟩ := pure_ok.mp hstep
    exact ⟨_, hc, ⟨rfl, rfl⟩, hgrows.offered node (mem_offered_offer hoffer)⟩
  refine ⟨_, rfl, rfl, rfl, fun v hv => ?_, ?_, ?_, fun v hv => ?_⟩
  · obtain ⟨c, hc, hname, _⟩ := hvalue v hv
    exact ⟨c, hc, hname⟩
  · rw [EnumDecl.numbers, ← map_snd_withPositions decl.values, map_map, map_map, ← forall₂_eq_eq_eq,
      forall₂_map_left_iff, forall₂_map_right_iff]
    refine hall.flip.imp fun c p hc => ?_
    obtain ⟨_, _, _, hstep, _⟩ := hc
    obtain ⟨_, _, _, hstep⟩ := bind_ok.mp hstep
    obtain ⟨rfl, _⟩ := pure_ok.mp hstep
    rfl
  · exact (Grows.mapM hstep _ hconstants).offered node (mem_offered_offer hclass)
  · exact (hvalue v hv).elim fun _ hc => hc.2.2

/-! ## Public imports -/

theorem forwardSymbols_ok : ∀ {symbols : List Symbol} {s s' : PlanState} {u : Unit},
    forwardSymbols ctx file target symbols s = .ok u s' →
      symbols ⊆ s'.offered file target ∧ ∀ name, .const name ∈ symbols → name ∈ s'.constants
  | [], _, _, _, _ => ⟨nil_subset _, fun _ hname => by cases hname⟩
  | symbol :: symbols, s, s', u, h => by
    obtain ⟨_, t, _, h⟩ := bind_ok.mp h
    have hrest {t : PlanState} (h : (do
        offer file target symbol
        forwardSymbols ctx file target symbols) t = .ok u s') :
        symbol :: symbols ⊆ s'.offered file target ∧ t.constants ⊆ s'.constants ∧
          ∀ name, .const name ∈ symbols → name ∈ s'.constants := by
      obtain ⟨_, t', hoffer, h⟩ := bind_ok.mp h
      have hgrows := (growing ctx file).forwardSymbols target symbols h
      obtain ⟨hsymbols, hconstants⟩ := forwardSymbols_ok h
      refine ⟨cons_subset.mpr ⟨hgrows.offered _ (mem_offered_offer hoffer), hsymbols⟩, ?_,
        hconstants⟩
      exact List.Subset.trans (Grows.offer target symbol hoffer).constants hgrows.constants
    cases symbol with
    | const name =>
      obtain ⟨_, t', hadd, h⟩ := bind_ok.mp h
      obtain ⟨hsymbols, hmore, hconstants⟩ := hrest h
      refine ⟨hsymbols, fun other hother => ?_⟩
      rcases mem_cons.mp hother with hsame | hother
      · cases hsame
        cases hadd
        exact hmore (mem_append_right _ mem_cons_self)
      · exact hconstants other hother
    | enum _ | message _ =>
      obtain ⟨hsymbols, _, hconstants⟩ := hrest h
      exact ⟨hsymbols, fun other hother => hconstants other (by simpa using hother)⟩

/-- What is planned for a node that a public import makes visible: the module at hand takes over
what the module of the imported file offers. -/
structure ForwardPlanned (ctx : Context) (file target via : NodeId) (s s' : PlanState)
    (p? : Option ForwardPlan) : Prop where
  offered : s.offered via target ⊆ s'.offered file target
  planned : ∀ symbol ∈ s.offered via target, ∃ p, p? = some p ∧ p.module = ctx.packageOf via ∧
    symbol ∈ p.symbols ∧ ctx.arena.name via ∈ s'.usedFiles

theorem planForward_ok {via : NodeId} {p? : Option ForwardPlan}
    (hnode : ctx.arena.kind? node = some (.imported target via))
    (h : planForward ctx file node s = .ok p? s') : ForwardPlanned ctx file target via s s' p? := by
  unfold planForward at h
  rw [hnode] at h
  obtain ⟨_, t, hget, h⟩ := bind_ok.mp h
  cases hget
  cases hsymbols : s.offered via target with
  | nil => exact ⟨hsymbols ▸ nil_subset _, fun _ hnone => by rw [hsymbols] at hnone; cases hnone⟩
  | cons symbol symbols =>
    rw [show (s.exports.get? (via, target)).getD [] = _ from hsymbols] at h
    obtain ⟨_, t, huse, h⟩ := bind_ok.mp h
    obtain ⟨_, t', hforward, h⟩ := bind_ok.mp h
    obtain ⟨rfl, rfl⟩ := pure_ok.mp h
    have hused : ctx.arena.name via ∈ t'.usedFiles := by
      cases huse
      exact ((growing ctx file).forwardSymbols target _ hforward).used
        (mem_append_right _ mem_cons_self)
    rw [← hsymbols] at hforward ⊢
    exact ⟨(forwardSymbols_ok hforward).1, fun _ hmem => ⟨_, rfl, rfl, hmem, hused⟩⟩

/-! ## Extensions -/

theorem extensionLinked_of_steps {extendee : NodeId} {extended : Reference} {type? : Option TypeUse}
    (hextended : Refers ctx file s.usedFiles decl.extendee extendee .class extended)
    (htype : TypeLinked (Refers ctx file s.usedFiles) decl.givenType? (type?.map (·.reference)))
    {tag : Except GenerateError String} {plan : String → ExtensionPlan} {name : String}
    (hplan : ∀ tag, (plan tag).variableName = ctx.arena.extensionVariable node ∧
      (plan tag).extended = extended ∧ (plan tag).name = name)
    (h : (do
      let tag ← ofExcept tag
      offer file node (.const (ctx.arena.extensionVariable node))
      pure (plan tag, if ctx.isSetMember node extendee then
        [.messageSet (type?.map (·.reference)) decl.number name] else []) :
        Planner (ExtensionPlan × List Registration)) s = .ok (e, entries) s') :
    ExtensionLinked ctx (Refers ctx file s'.usedFiles) node decl e entries := by
  obtain ⟨tag, _, htag, h⟩ := bind_ok.mp h
  obtain ⟨_, t, hoffer, h⟩ := bind_ok.mp h
  obtain ⟨hresult, rfl⟩ := pure_ok.mp h
  cases hresult
  have hused := ((Grows.ofExcept _ htag).trans (Grows.offer _ _ hoffer)).used
  obtain ⟨hvariable, rfl, rfl⟩ := hplan tag
  exact ⟨hvariable, extendee, _, hextended.mono ctx file hused,
    htype.imp fun _ _ _ _ hr => hr.mono ctx file hused, rfl⟩

theorem planExtension_ok (h : planExtension ctx file node decl s = .ok (e, entries) s') :
    ExtensionLinked ctx (Refers ctx file s'.usedFiles) node decl e entries := by
  obtain ⟨extendee, t, hextended, h⟩ := bind_ok.mp h
  obtain ⟨_, rfl, hextendee⟩ := meant_of_typeReference hextended
  dsimp only at h
  split at h
  · cases h
  · split at h
    · rename_i hempty
      obtain ⟨_, _, hnone, h⟩ := bind_ok.mp h
      cases hnone
      refine extensionLinked_of_steps hextendee ?_ ?_ h
      · simp [FieldDecl.givenType?, hempty]
      · exact fun _ => ⟨rfl, rfl, rfl⟩
    · rename_i hgiven
      obtain ⟨type, t', htype, h⟩ := bind_ok.mp h
      obtain ⟨_, _, hsome, h⟩ := bind_ok.mp h
      cases hsome
      have hgrows := (growing ctx file).typeReference _ htype
      refine extensionLinked_of_steps (hextendee.mono ctx file hgrows.used) ?_ ?_ h
      · rw [FieldDecl.givenType?, if_neg hgiven]
        exact .some ((meant_of_typeReference htype).imp fun _ => And.right)
      · exact fun _ => ⟨rfl, rfl, rfl⟩

theorem planExtensions_ok : ∀ {nodes : List NodeId} {s s' : PlanState} {es : List ExtensionPlan}
    {entries : List Registration}, planExtensions ctx file nodes s = .ok (es, entries) s' →
      ∃ planned : List (ExtensionPlan × List Registration), es = planned.map (·.1) ∧
        entries = planned.flatMap (·.2) ∧
        Forall₂ (fun d x => ExtensionLinked ctx (Refers ctx file s'.usedFiles) d.1 d.2 x.1 x.2)
          (ctx.extensionDecls nodes) planned
  | [], s, s', es, entries, h => by
    obtain ⟨hpair, _⟩ := pure_ok.mp h
    cases hpair
    exact ⟨[], rfl, rfl, .nil⟩
  | node :: nodes, s, s', es, entries, h => by
    unfold planExtensions at h
    unfold Context.extensionDecls
    cases hdecl : ctx.arena.extension? node with
    | none =>
      rw [hdecl] at h
      rw [filterMap_cons_none (by rw [hdecl]; rfl)]
      exact planExtensions_ok h
    | some decl =>
      rw [hdecl] at h
      rw [filterMap_cons_some (by rw [hdecl]; rfl)]
      obtain ⟨⟨e, first⟩, t, hfirst, h⟩ := bind_ok.mp h
      obtain ⟨⟨rest, more⟩, t', hrest, h⟩ := bind_ok.mp h
      obtain ⟨hpair, rfl⟩ := pure_ok.mp h
      cases hpair
      have hused := ((growing ctx file).planExtensions nodes (fun _ _ _ _ => trivial) hrest).used
      obtain ⟨planned, rfl, rfl, hall⟩ := planExtensions_ok hrest
      refine ⟨(e, first) :: planned, rfl, rfl, .cons ?_ hall⟩
      exact (planExtension_ok hfirst).imp fun _ _ _ _ hr => hr.mono ctx file hused

/-! ## Modules -/

/-- What is planned and offered for a message. -/
structure MessagePlanned (ctx : Context) (file node : NodeId) (m : MessageNode) (s : PlanState)
    (p : MessagePlan) : Prop where
  name : p.name = ctx.arena.camelName node
  indexes : p.indexes = ctx.arena.indexes node
  expressions : p.Expressions ctx (Refers ctx file s.usedFiles) m
  offered : m.isGroup = false → ∃ symbol, .message symbol ∈ s.offered file node ∧ symbol.name = p.name

theorem MessagePlanned.grow {m : MessageNode} {p : MessagePlan}
    (h : MessagePlanned ctx file node m s p) (hgrows : s.Grows file s') :
    MessagePlanned ctx file node m s' p where
  name := h.name
  indexes := h.indexes
  expressions := h.expressions.imp fun _ _ _ _ hr => hr.mono ctx file hgrows.used
  offered hgroup := (h.offered hgroup).imp fun _ hx => ⟨hgrows.offered node hx.1, hx.2⟩

theorem planMessages_ok : ∀ {nodes : List NodeId} {s s' : PlanState}
    {plans : List (NodeId × MessagePlan)}, planMessages ctx file nodes s = .ok plans s' →
      ∀ node ∈ nodes, ∀ m, ctx.arena.message? node = some m → m.decl.isMapEntry = false →
        ∃ p, (node, p) ∈ plans ∧ MessagePlanned ctx file node m s' p
  | [], _, _, _, _, _, hnode, _, _, _ => absurd hnode not_mem_nil
  | node :: nodes, s, s', plans, h, other, hother, m, hm, hentry => by
    unfold planMessages at h
    cases hnode : ctx.arena.message? node with
    | none =>
      rw [hnode] at h
      rcases mem_cons.mp hother with rfl | hother
      · cases hnode.symm.trans hm
      · exact planMessages_ok h other hother m hm hentry
    | some m' =>
      simp only [hnode] at h
      split at h
      · rename_i hmap
        rcases mem_cons.mp hother with rfl | hother
        · cases hnode.symm.trans hm
          cases hentry.symm.trans hmap
        · exact planMessages_ok h other hother m hm hentry
      · obtain ⟨p, t, hfirst, h⟩ := bind_ok.mp h
        obtain ⟨rest, t', hrest, h⟩ := bind_ok.mp h
        obtain ⟨rfl, rfl⟩ := pure_ok.mp h
        rcases mem_cons.mp hother with rfl | hother
        · cases hnode.symm.trans hm
          obtain ⟨_, _, _, _, _, _, _, _, _, _, _, _, hoffered, hname, hindexes, _⟩ :=
            planMessage_steps hfirst
          have hplanned : MessagePlanned ctx file other m t p :=
            ⟨hname, hindexes, planMessage_ok hfirst, hoffered⟩
          exact ⟨p, mem_cons_self, hplanned.grow (grows_planMessages ctx file nodes hrest)⟩
        · obtain ⟨q, hq, hplanned⟩ := planMessages_ok hrest other hother m hm hentry
          exact ⟨q, mem_cons_of_mem _ hq, hplanned⟩

/-- What is planned for the import of a file under a name, when some names are used. -/
def ImportPlanned (ctx : Context) (decl : FileDecl) (used : List String) (dependency : Nat × String)
    (i : ImportPlan) : Prop :=
  ∃ d, ctx.fileNamed dependency.2 = .ok d ∧
    let f := (ctx.arena.file? d).getD { decl := {} }
    i = if decl.isWeak dependency.1 then .weak f.modulePath
      else if used.contains dependency.2 then .used f.modulePath f.packageName dependency.2
      else .unused f.modulePath dependency.2

theorem planImports_ok {decl : FileDecl} : ∀ {rest : List (Nat × String)} {s s' : PlanState}
    {imports : List ImportPlan}, planImports ctx decl rest s = .ok imports s' →
      Forall₂ (ImportPlanned ctx decl s.usedFiles) rest imports
  | [], _, _, _, h => by
    obtain ⟨rfl, _⟩ := pure_ok.mp h
    exact .nil
  | (i, name) :: rest, s, s', imports, h => by
    obtain ⟨d, t, hfile, h⟩ := bind_ok.mp h
    obtain ⟨hd, rfl⟩ := ofReported_ok.mp hfile
    dsimp only at h
    split at h
    all_goals
      rename_i hweak
      obtain ⟨_, t, hstep, h⟩ := bind_ok.mp h
      cases hstep
      obtain ⟨more, t', hrest, h⟩ := bind_ok.mp h
      obtain ⟨rfl, rfl⟩ := pure_ok.mp h
      have hothers := planImports_ok hrest
      exact .cons ⟨d, hd, by simp [hweak]⟩ hothers

/-- What the plan of a module contains, and what the module offers when it is planned. -/
structure Planned (ctx : Context) (file : NodeId) (f : FileNode) (s s' : PlanState)
    (used : List String) (p : ModulePlan) : Prop where
  others : ∀ other node, other ≠ file → s'.offered other node = s.offered other node
  forwards : ∀ node ∈ f.imported, ∀ target via, ctx.arena.kind? node = some (.imported target via) →
    via ≠ file → ∀ symbol ∈ s.offered via target, symbol ∈ s'.offered file target ∧
      (∃ q ∈ p.forwards, q.module = ctx.packageOf via ∧ symbol ∈ q.symbols) ∧
      ctx.arena.name via ∈ used
  enums : ∀ node ∈ f.enums, ∀ decl, ctx.arena.enum? node = some decl →
    ∃ e ∈ p.enums, EnumPlanned ctx node decl (s'.offered file node) e
  messages : ∀ node ∈ f.messages, ∀ m, ctx.arena.message? node = some m →
    m.decl.isMapEntry = false → ∃ c ∈ p.messages, c.name = ctx.arena.camelName node ∧
      c.indexes = ctx.arena.indexes node ∧ (m.isGroup = false → ∃ symbol,
        .message symbol ∈ s'.offered file node ∧ symbol.name = c.name)
  imports : ∀ i name d g, f.decl.dependencies[i]? = some name → f.decl.isWeak i = false →
    ctx.fileNamed name = .ok d → ctx.arena.file? d = some g → name ∈ used →
    .used g.modulePath g.packageName name ∈ p.imports
  expressions : p.Expressions ctx (Refers ctx file used) f

theorem planned_planModule {p : ModulePlan} (h : planModule ctx file f s = .ok p s') :
    ∃ used, Planned ctx file f s s' used p := by
  obtain ⟨_, s₀, hreset, h⟩ := bind_ok.mp h
  have hsame (other node : NodeId) : s₀.offered other node = s.offered other node := by
    cases hreset
    rfl
  obtain ⟨forwards, s₁, hforwards, h⟩ := bind_ok.mp h
  obtain ⟨enums, s₂, henums, h⟩ := bind_ok.mp h
  obtain ⟨messages, s₃, hmessages, h⟩ := bind_ok.mp h
  obtain ⟨⟨extensions, members⟩, s₄, hextensions, h⟩ := bind_ok.mp h
  obtain ⟨imports, s₅, himports, h⟩ := bind_ok.mp h
  obtain ⟨rfl, rfl⟩ := pure_ok.mp h
  have hgrows₁ := Grows.mapM (growing ctx file).planForward _ hforwards
  have hgrows₂ := Grows.mapM ((growing ctx file).planEnum) _ henums
  have hgrows₃ := grows_planMessages ctx file _ hmessages
  have hgrows₄ := (growing ctx file).planExtensions _ (fun _ _ _ _ => trivial) hextensions
  have hgrows₅ : s₄.Grows file s₅ := (growing ctx file).planImports f.decl _ himports
  have hend := hgrows₄.trans hgrows₅
  have hend₂ := hgrows₂.trans (hgrows₃.trans hend)
  obtain ⟨planned, rfl, rfl, hlinked⟩ := planExtensions_ok hextensions
  refine ⟨s₄.usedFiles, ?_, ?_, ?_, ?_, ?_, ?_, planned, rfl, fun _ _ _ => ?_, hlinked⟩
  · intro other node hne
    rw [(hgrows₁.trans hend₂).others other node hne, hsame]
  · intro node hnode target via hkind hvia symbol hsymbol
    obtain ⟨p?, hp?, t, t', hbefore, hstep, hafter⟩ :=
      exists_of_forall₂ (mapM_steps (growing ctx file).planForward hforwards) hnode
    have hplanned := planForward_ok hkind hstep
    rw [← hsame, ← hbefore.others via target hvia] at hsymbol
    obtain ⟨p, rfl, hmodule, hmem, hused⟩ := hplanned.planned symbol hsymbol
    refine ⟨hend₂.offered target (hafter.offered target (hplanned.offered hsymbol)), ?_, ?_⟩
    · exact ⟨p, mem_filterMap.mpr ⟨some p, hp?, rfl⟩, hmodule, hmem⟩
    · exact (hgrows₂.trans (hgrows₃.trans hgrows₄)).used (hafter.used hused)
  · intro node hnode decl hdecl
    obtain ⟨e?, he?, t, t', _, hstep, hafter⟩ :=
      exists_of_forall₂ (mapM_steps ((growing ctx file).planEnum) henums) hnode
    obtain ⟨e, rfl, hplanned⟩ := planEnum_ok hdecl hstep
    have hoffered := (hafter.trans (hgrows₃.trans hend)).offered node
    exact ⟨e, mem_filterMap.mpr ⟨some e, he?, rfl⟩, hplanned.name, hplanned.indexes,
      hplanned.constants, hplanned.numbers, hoffered hplanned.classOffered,
      fun v hv => hoffered (hplanned.constantsOffered v hv)⟩
  · intro node hnode m hm hentry
    obtain ⟨c, hc, hplanned⟩ := planMessages_ok hmessages node hnode m hm hentry
    have hgrown := hplanned.grow hend
    exact ⟨c, mem_map.mpr ⟨_, hc, rfl⟩, hgrown.name, hgrown.indexes, hgrown.offered⟩
  · intro i name d g hname hweak hd hg hused
    obtain ⟨plan, hplan, d', hd', rfl⟩ := exists_of_forall₂ (planImports_ok himports) (mem_withPositions hname)
    cases hd.symm.trans hd'
    simpa [hweak, hg, hused] using hplan
  · intro node hnode m hm hentry
    obtain ⟨c, hc, hplanned⟩ := planMessages_ok hmessages node hnode m hm hentry
    have hgrown := hplanned.grow hgrows₄
    exact ⟨c, mem_map.mpr ⟨_, hc, rfl⟩, hgrown.name, hgrown.indexes, hgrown.expressions⟩
  · simp

end

end Planner

end Protobind
