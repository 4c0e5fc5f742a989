import Protobind.Proofs.CamelCase
import Protobind.Proofs.Linking

/-!
# Names bound by modules

Which names of a module differ whatever its file declares. Constants for defaults and variants are
made to differ (`Name.unique`), and so do names that begin in different ways (`Name.lead`).
-/

namespace Protobind

open List Dictionary

variable {β : Type} {a b before more names : List String} {c : MessagePlan}
  {className name : String} {e : EnumPlan} {f : FileNode} {m : MessageNode} {node : NodeId}
  {p : ModulePlan} {s s' : PlanState}

namespace Name

/-! ## Beginnings of names -/

/-- How a name begins: with two letters of which the first is a small one, or with anything else. -/
def lead (name : String) : List Char :=
  if startsLower name.toList then name.toList.take 2 else []

theorem lead_eq_nil (h : startsLower name.toList = false) : lead name = [] := by
  unfold lead
  rw [h]
  rfl

theorem lead_append (base rest : String) (h : 2 ≤ base.toList.length) :
    lead (base ++ rest) = lead base := by
  unfold lead
  rw [String.toList_append]
  match base.toList, h with
  | c :: d :: cs, _ => rfl

theorem startsLower_append {a b : String} (ha : startsLower a.toList = false)
    (hb : startsLower b.toList = false) : startsLower (a ++ b).toList = false := by
  rw [String.toList_append]
  cases hcs : a.toList with
  | nil => exact hb
  | cons c cs => rwa [hcs] at ha

theorem startsLower_underscore (rest : String) : startsLower ("_" ++ rest).toList = false := by
  rw [String.toList_append]
  rfl

theorem startsLower_camel (name : String) : startsLower (camel name).toList = false := by
  rw [camel, String.toList_ofList]
  exact startsLower_camelChars _

theorem startsLower_camelPath (parts : List String) :
    startsLower (camelPath parts).toList = false := by
  rw [camelPath, String.toList_intercalate, map_map]
  rcases parts with _ | ⟨part, _ | ⟨next, parts⟩⟩
  · rfl
  · simpa using startsLower_camel part
  · have hpart := startsLower_camel part
    rw [map_cons, map_cons, intercalate_cons_cons]
    cases hcamel : (camel part).toList with
    | nil => simp [hcamel, startsLower, isLower]
    | cons c cs =>
      rw [hcamel] at hpart
      simpa [hcamel, startsLower] using hpart

/-! ## Names that are made to differ -/

theorem underscored_injective (name : String) : Function.Injective (underscored name) := by
  intro i j h
  have hlength := congrArg (fun s => s.toList.length) h
  simpa [underscored] using hlength

theorem unique_not_mem (name : String) (taken : List String) : unique name taken ∉ taken :=
  not_mem_of_leastBelow (underscored_injective name) taken

theorem lead_unique (base : String) (h : startsLower base.toList = false) (rest : String)
    (taken : List String) : lead (unique (base ++ "_" ++ rest) taken) = [] := by
  rw [unique, underscored, String.append_assoc, String.append_assoc]
  exact lead_eq_nil (startsLower_append h (startsLower_underscore _))

/-- Whether names differ from each other and from earlier names, and are among later ones. -/
structure Fresh (before after names : List String) : Prop where
  nodup : names.Nodup
  new : ∀ name ∈ names, name ∉ before
  kept : names ⊆ after

theorem Fresh.nil (before after : List String) : Fresh before after [] :=
  ⟨nodup_nil, forall_mem_nil _, nil_subset _⟩

theorem Fresh.append {c d : List String} (h : Fresh a b names) (h' : Fresh c d more) (hac : a ⊆ c)
    (hbc : b ⊆ c) (hcd : c ⊆ d) : Fresh a d (names ++ more) where
  nodup := nodup_append'.mpr
    ⟨h.nodup, h'.nodup, fun name hname hmore => h'.new name hmore (hbc (h.kept hname))⟩
  new := forall_mem_append.mpr ⟨h.new, fun name hname hold => h'.new name hname (hac hold)⟩
  kept := append_subset.mpr ⟨fun _ hname => hcd (hbc (h.kept hname)), h'.kept⟩

theorem Fresh.mono {c : List String} (h : Fresh a b names) (hbc : b ⊆ c) : Fresh a c names :=
  ⟨h.nodup, h.new, List.Subset.trans h.kept hbc⟩

theorem Fresh.add {after later : List String} (h : Fresh before after names) (hname : name ∉ after)
    (hbefore : before ⊆ after) (hlater : after ⊆ later) (hmem : name ∈ later)
    (hmore : more.Subperm (name :: names)) :
    Fresh before later more where
  nodup := by
    obtain ⟨sub, hperm, hsub⟩ := hmore
    have hnodup := nodup_cons.mpr ⟨fun hold => hname (h.kept hold), h.nodup⟩
    exact hperm.nodup_iff.mp (hnodup.sublist hsub)
  new other hother := by
    rcases mem_cons.mp (hmore.subset hother) with rfl | hold
    · exact fun hmem => hname (hbefore hmem)
    · exact h.new other hold
  kept other hother := by
    rcases mem_cons.mp (hmore.subset hother) with rfl | hold
    · exact hmem
    · exact hlater (h.kept hold)

end Name

/-- When a value is set to what has the names of the old value and another one, or only some of
them, a dictionary gets this name. -/
theorem Dictionary.subperm_set (names : β → List String) {key : Int} {value : β}
    {d : Dictionary Int β}
    (h : (names value).Sublist (((d.get? key).map names).getD [] ++ [name])) :
    ((d.set key value).flatMap (names ·.2)).Subperm
      (name :: d.flatMap (names ·.2)) := by
  induction d with
  | nil =>
    simpa [set, get?] using h.subperm
  | cons first rest ih =>
    obtain ⟨k, old⟩ := first
    have hmiddle (more : List String) :
        (names old ++ (name :: more)).Subperm (name :: (names old ++ more)) :=
      perm_middle.subperm
    simp only [set, get?, flatMap_cons] at h ⊢
    split
    · rename_i heq
      rw [if_pos heq, Option.map_some, Option.getD_some] at h
      have happend := (h.append_right (rest.flatMap (names ·.2))).subperm
      rw [append_assoc] at happend
      exact happend.trans (hmiddle _)
    · rename_i hne
      rw [if_neg hne] at h
      exact ((subperm_append_left (names old)).mpr (ih h)).trans (hmiddle _)

/-- How the names begin that a statement of a planned module binds, if that is known. -/
def Statement.lead? : Statement → Option (List Char)
  | .support name => some (Name.lead name)
  | .importModule _ _ | .forward _ _ | .forwardClass _ _ | .register _ => none
  | .ranges _ _ => some ['e', 'x']
  | .discriminator _ => some ['i', 's']
  | .descriptor _ _ => some ['f', 'i']
  | _ => some []

/-- Whether the names that two statements of a planned module bind may begin in the same way. -/
def Statement.MayClash (st st' : Statement) : Prop :=
  ∀ lead ∈ st.lead?, ∀ lead' ∈ st'.lead?, lead = lead'

namespace MessagePlan

def defaultNames (m : MessagePlan) : List String := m.defaults.map (·.1)

def variants (m : MessagePlan) : List String :=
  m.oneofs.flatMap fun g => g.members.map (·.variant)

end MessagePlan

namespace Planner

open Name

variable {ctx : Context} {file : NodeId}

/-! ## Defaults -/

theorem defaultConstant_fresh {b : FieldBinding} {d? : Option (String × DefaultExpr)}
    (h : defaultConstant className b s = .ok d? s') :
    ∀ d ∈ d?, d.1 ∉ s.constants ∧ d.1 ∈ s'.constants ∧ lead d.1 = [] := by
  unfold defaultConstant at h
  have hnone {t : PlanState}
      (h : (pure none : Planner (Option (String × DefaultExpr))) t = .ok d? s') :
      ∀ d ∈ d?, d.1 ∉ s.constants ∧ d.1 ∈ s'.constants ∧ lead d.1 = [] := by
    obtain ⟨rfl, _⟩ := pure_ok.mp h
    exact fun _ hd => by cases hd
  split at h
  · exact hnone h
  · dsimp only at h
    split at h
    · obtain ⟨_, t, _, h⟩ := bind_ok.mp h
      exact hnone h
    · obtain ⟨expr?, t, hexpr, h⟩ := bind_ok.mp h
      obtain ⟨_, rfl⟩ := ofExcept_ok.mp hexpr
      split at h
      · exact hnone h
      · obtain ⟨_, t, hget, h⟩ := bind_ok.mp h
        cases hget
        obtain ⟨_, t, hadd, h⟩ := bind_ok.mp h
        obtain ⟨rfl, rfl⟩ := pure_ok.mp h
        cases hadd
        intro d hd
        obtain rfl := Option.mem_some.mp hd
        exact ⟨unique_not_mem _ _, mem_append_right _ mem_cons_self,
          lead_unique ("Default_" ++ className) (by simp [startsLower, isLower]) _ _⟩

theorem defaultConstants_fresh :
    ∀ {bs : List FieldBinding} {defaults defaults' : Dictionary Int (String × DefaultExpr)}
      {s s' : PlanState}, defaultConstants className defaults bs s = .ok defaults' s' →
      before ⊆ s.constants → Fresh before s.constants (defaults.map (·.2.1)) →
      (∀ d ∈ defaults, lead d.2.1 = []) →
      Fresh before s'.constants (defaults'.map (·.2.1)) ∧ ∀ d ∈ defaults', lead d.2.1 = []
  | [], defaults, defaults', s, s', h, _, hfresh, hlead => by
    obtain ⟨rfl, rfl⟩ := pure_ok.mp h
    exact ⟨hfresh, hlead⟩
  | b :: bs, defaults, defaults', s, s', h, hbefore, hfresh, hlead => by
    obtain ⟨d?, t, hd, h⟩ := bind_ok.mp h
    have hgrows := ((growing {} 0).defaultConstant className trivial hd).constants
    have hnew := defaultConstant_fresh hd
    cases d? with
    | none =>
      exact defaultConstants_fresh h (List.Subset.trans hbefore hgrows) (hfresh.mono hgrows) hlead
    | some d =>
      obtain ⟨hnot, hmem, hnil⟩ := hnew d rfl
      have hsub : ((defaults.set b.decl.number d).flatMap fun e => [e.2.1]).Subperm
          (d.1 :: defaults.flatMap fun e => [e.2.1]) :=
        subperm_set (fun d : String × DefaultExpr => [d.1])
          (sublist_append_right _ _)
      refine defaultConstants_fresh h (List.Subset.trans hbefore hgrows)
        (hfresh.add hnot hbefore hgrows hmem ?_) fun e he => ?_
      · simpa [← map_eq_flatMap] using hsub
      · rcases mem_set he with rfl | he
        · exact hnil
        · exact hlead e he

/-! ## Variants -/

/-- The names of groups: variant classes that are new behind some names, all of which are taken. -/
structure Grouped (before taken : List String) (groups : Groups) : Prop where
  variants : Fresh before taken (groups.flatMap fun g => g.2.members.map (·.variant))
  leads : ∀ g ∈ groups, lead g.2.discriminator = ['i', 's'] ∧ ∀ x ∈ g.2.members, lead x.variant = []

theorem grouped_groupFields (hclass : startsLower className.toList = false)
    {decls : List OneofDecl} :
    ∀ {bs : List FieldBinding} {taken : List String} {groups groups' : Groups} {a : Name.Allocator}
      {s s' : PlanState}, groupFields className decls taken groups a bs s = .ok groups' s' →
      before ⊆ taken → Grouped before taken groups → ∃ taken', Grouped before taken' groups'
  | [], taken, groups, groups', a, s, s', h, _, hgroups => by
    obtain ⟨rfl, _⟩ := pure_ok.mp h
    exact ⟨taken, hgroups⟩
  | b :: bs, taken, groups, groups', a, s, s', h, hbefore, hgroups => by
    have htaken {name : String} : taken ⊆ taken ++ [name] := subset_append_left _ _
    unfold groupFields at h
    split at h
    · obtain ⟨⟨group, a'⟩, t, hgroup, h⟩ := bind_ok.mp h
      have hgroup := groupAt_ok hgroup
      refine grouped_groupFields hclass h (List.Subset.trans hbefore htaken) ⟨?_, fun g hg => ?_⟩
      · refine hgroups.variants.add (unique_not_mem _ _) hbefore htaken
          (mem_append_right _ mem_cons_self)
          (subperm_set (fun g : OneofGroup => g.members.map (·.variant)) ?_)
        rcases hgroup with hget | ⟨hget, hmembers, _⟩
        · simp [hget]
        · simp [hget, hmembers]
      · have hold : lead group.discriminator = ['i', 's'] ∧
            ∀ x ∈ group.members, lead x.variant = [] := by
          rcases hgroup with hget | ⟨_, hmembers, hname⟩
          · exact hgroups.leads _ (mem_of_get? hget)
          · refine ⟨?_, fun x hx => by rw [hmembers] at hx; cases hx⟩
            rw [hname, String.append_assoc, String.append_assoc]
            exact lead_append "is" _ (by decide)
        rcases mem_set hg with rfl | hg
        · refine ⟨hold.1, forall_mem_append.mpr ⟨hold.2, fun x hx => ?_⟩⟩
          cases mem_singleton.mp hx
          exact lead_unique className hclass _ _
        · exact hgroups.leads g hg
    · exact grouped_groupFields hclass h hbefore hgroups

/-! ## Classes -/

theorem startsLower_camelName (node : NodeId) :
    startsLower (ctx.arena.camelName node).toList = false :=
  startsLower_camelPath _

/-- The names that belong to the class of a message. -/
structure MessageNamed (ctx : Context) (node : NodeId) (m : MessageNode) (c : MessagePlan) :
    Prop where
  name : c.name = ctx.arena.camelName node
  variants : c.variants.Nodup
  apart : ∀ child ∈ m.nested ++ m.enums, ctx.arena.camelName child ∉ c.variants
  defaults : ∀ d ∈ c.defaults, lead d.1 = []
  groups : ∀ g ∈ c.oneofs, lead g.discriminator = ['i', 's'] ∧ ∀ x ∈ g.members, lead x.variant = []

theorem planMessage_named (h : planMessage ctx file node m s = .ok c s') :
    MessageNamed ctx node m c ∧ Fresh s.constants s'.constants c.defaultNames := by
  obtain ⟨_, bindings, _, groups, defaults, s₁, s₂, s₃, hbind, hgroups, hdefaults, hgrows, _, hname,
    _, honeofs, hconstants, _⟩ := planMessage_steps h
  obtain ⟨taken, hgrouped⟩ := grouped_groupFields (startsLower_camelName node) hgroups
    (List.Subset.refl _) ⟨.nil _ _, fun _ hg => by cases hg⟩
  have hbefore := (((growing ctx file).bindFields _ _ _ (fun _ _ => trivial) hbind).trans
    ((growing ctx file).groupFields _ _ _ _ _ _ (fun _ _ _ _ => trivial) hgroups)).constants
  obtain ⟨hfresh, hleads⟩ :=
    defaultConstants_fresh hdefaults hbefore (.nil _ _) fun _ hd => by cases hd
  have hvariants : c.variants = groups.flatMap fun g => g.2.members.map (·.variant) := by
    rw [MessagePlan.variants, honeofs, flatMap_map]
  have hnames : c.defaultNames = defaults.map (·.2.1) := by
    rw [MessagePlan.defaultNames, hconstants, map_map]
    rfl
  refine ⟨⟨hname, hvariants ▸ hgrouped.variants.nodup, fun child hchild hmem => ?_, ?_, ?_⟩,
    hnames ▸ hfresh.mono hgrows.constants⟩
  · exact hgrouped.variants.new _ (hvariants ▸ hmem) (mem_map.mpr ⟨child, hchild, rfl⟩)
  · rw [hconstants]
    exact forall_mem_map.mpr hleads
  · rw [honeofs]
    exact forall_mem_map.mpr hgrouped.leads

theorem planMessages_named : ∀ {nodes : List NodeId} {s s' : PlanState}
    {plans : List (NodeId × MessagePlan)}, planMessages ctx file nodes s = .ok plans s' →
      Fresh s.constants s'.constants (plans.flatMap (·.2.defaultNames)) ∧
        ∀ q ∈ plans, q.1 ∈ nodes ∧ ∃ m, ctx.arena.message? q.1 = some m ∧ MessageNamed ctx q.1 m q.2
  | [], s, s', plans, h => by
    obtain ⟨rfl, _⟩ := pure_ok.mp h
    exact ⟨.nil _ _, fun _ hq => by cases hq⟩
  | node :: nodes, s, s', plans, h => by
    have hskip (h : planMessages ctx file nodes s = .ok plans s') :=
      (planMessages_named h).imp_right fun hall q hq =>
        (hall q hq).imp_left (mem_cons_of_mem node)
    unfold planMessages at h
    cases hm : ctx.arena.message? node with
    | none =>
      rw [hm] at h
      exact hskip h
    | some m =>
      simp only [hm] at h
      split at h
      · exact hskip h
      · obtain ⟨c, t, hc, h⟩ := bind_ok.mp h
        obtain ⟨rest, t', hrest, h⟩ := bind_ok.mp h
        obtain ⟨rfl, rfl⟩ := pure_ok.mp h
        obtain ⟨hnamed, hfresh⟩ := planMessage_named hc
        obtain ⟨hmore, hall⟩ := planMessages_named hrest
        have hgrows := grows_planMessages ctx file nodes hrest
        refine ⟨hfresh.append hmore (grows_planMessage ctx file node m hc).constants
          (List.Subset.refl _) hgrows.constants, forall_mem_cons.mpr ⟨?_, fun q hq => ?_⟩⟩
        · exact ⟨mem_cons_self, m, hm, hnamed⟩
        · exact (hall q hq).imp_left (mem_cons_of_mem node)

theorem lead_constant (node : NodeId) (label : String) :
    lead (ctx.arena.constantPrefix node ++ label) = [] := by
  refine lead_eq_nil ?_
  unfold Arena.constantPrefix
  split
  · rw [String.append_assoc]
    exact startsLower_append (startsLower_camelPath _) (startsLower_underscore _)
  · rw [String.append_assoc]
    exact startsLower_append (startsLower_camel _) (startsLower_underscore _)

theorem planEnum_named (h : planEnum ctx file node s = .ok (some e) s') :
    startsLower e.name.toList = false ∧ ∀ c ∈ e.constants, lead c.name = [] := by
  cases hdecl : ctx.arena.enum? node with
  | none =>
    unfold planEnum at h
    rw [hdecl] at h
    cases (pure_ok.mp h).1
  | some decl =>
    obtain ⟨_, ⟨⟩, hplanned⟩ := planEnum_ok hdecl h
    refine ⟨hplanned.name ▸ startsLower_camelName node, fun c hc => ?_⟩
    have hmem : (c.name, c.number) ∈ e.constants.map fun c => (c.name, c.number) := mem_map_of_mem hc
    rw [hplanned.numbers] at hmem
    obtain ⟨v, _, heq⟩ := mem_map.mp hmem
    rw [← (Prod.mk.inj heq).1]
    exact lead_constant node _

theorem planForward_constants {q : ForwardPlan}
    (h : planForward ctx file node s = .ok (some q) s') :
    ∀ name, .const name ∈ q.symbols → name ∈ s'.constants := by
  unfold planForward at h
  rcases hkind : ctx.arena.kind? node with _ | ⟨_ | _ | _ | _ | ⟨target, via⟩⟩
  case some.imported =>
    rw [hkind] at h
    obtain ⟨state, t, _, h⟩ := bind_ok.mp h
    cases hsymbols : (state.exports.get? (via, target)).getD [] with
    | nil =>
      rw [hsymbols] at h
      cases (pure_ok.mp h).1
    | cons symbol symbols =>
      rw [hsymbols] at h
      obtain ⟨_, t, _, h⟩ := bind_ok.mp h
      obtain ⟨_, t', hforward, h⟩ := bind_ok.mp h
      obtain ⟨hsome, rfl⟩ := pure_ok.mp h
      cases hsome
      exact (forwardSymbols_ok hforward).2
  all_goals
    rw [hkind] at h
    cases (pure_ok.mp h).1

/-! ## Modules -/

/-- Whether the names that a statement binds begin as it tells. -/
def Leads (st : Statement) : Prop := ∀ start ∈ st.lead?, ∀ name ∈ st.bound, lead name = start

theorem leads_of_single {st : Statement} {start : List Char} (hstart : st.lead? = some start)
    (hname : st.bound = [name]) (h : lead name = start) : Leads st := by
  unfold Leads
  rw [hstart, hname]
  simpa using h

theorem leads_enum (hname : startsLower e.name.toList = false)
    (hconstants : ∀ c ∈ e.constants, lead c.name = []) : ∀ st ∈ e.statements, Leads st := by
  have hmap (label : String) (hlabel : startsLower label.toList = false) :
      lead (e.name ++ label) = [] :=
    lead_eq_nil (startsLower_append hname hlabel)
  intro st hst
  simp only [EnumPlan.statements, cons_append, mem_cons, mem_append, mem_map,
    not_mem_nil, or_false] at hst
  rcases hst with rfl | ⟨c, hc, rfl⟩ | rfl | rfl
  · exact leads_of_single rfl rfl (lead_eq_nil hname)
  · exact leads_of_single rfl rfl (hconstants c hc)
  · exact leads_of_single rfl rfl (hmap "_name" rfl)
  · exact leads_of_single rfl rfl (hmap "_value" rfl)

theorem leads_message (h : MessageNamed ctx node m c) : ∀ st ∈ c.statements, Leads st := by
  intro st hst
  simp only [MessagePlan.statements, cons_append, mem_cons, mem_append, mem_map,
    mem_flatMap, OneofGroup.statements] at hst
  rcases hst with rfl | ((hst | ⟨d, hd, rfl⟩) | ⟨g, hg, rfl | ⟨x, hx, rfl⟩⟩) | hst
  · exact leads_of_single rfl rfl (h.name ▸ lead_eq_nil (startsLower_camelName node))
  · split at hst
    · obtain rfl := mem_singleton.mp hst
      exact leads_of_single rfl rfl (lead_append "extRange_" _ (by decide))
    · cases hst
  · exact leads_of_single rfl rfl (h.defaults d hd)
  · exact leads_of_single rfl rfl (h.groups g hg).1
  · exact leads_of_single rfl rfl ((h.groups g hg).2 x hx)
  · split at hst
    · cases hst
    · obtain rfl := mem_singleton.mp hst
      rintro _ ⟨⟩ name hname
      simp only [Statement.bound, mem_cons, not_mem_nil, or_false] at hname
      rcases hname with rfl | rfl | rfl <;>
        exact lead_eq_nil (startsLower_append (startsLower_underscore _) rfl)

theorem leads_statements (henums : ∀ e ∈ p.enums,
      startsLower e.name.toList = false ∧ ∀ c ∈ e.constants, lead c.name = [])
    (hmessages : ∀ c ∈ p.messages, ∃ node m, MessageNamed ctx node m c)
    (hextensions : ∀ e ∈ p.extensions, lead e.variableName = [])
    (hdescriptor : lead p.variableName = ['f', 'i']) : ∀ st ∈ p.statements, Leads st := by
  have hunknown {st : Statement} (h : st.lead? = none) : Leads st :=
    fun _ hstart => by rw [h] at hstart; cases hstart
  intro st hst
  simp only [ModulePlan.statements, mem_append, mem_map, mem_flatMap, mem_singleton] at hst
  rcases hst with (((((((⟨name, _, rfl⟩ | ⟨i, _, hst⟩) | rfl) | ⟨q, _, symbol, _, hst⟩) |
    ⟨e, he, hst⟩) | ⟨c, hc, hst⟩) | ⟨e, he, rfl⟩) | ⟨entry, _, rfl⟩) | rfl
  · exact leads_of_single rfl rfl rfl
  · refine hunknown ?_
    cases i <;> simp_all [ImportPlan.statements, Statement.lead?]
  · exact leads_of_single rfl rfl rfl
  · refine hunknown ?_
    cases symbol with
    | message symbol =>
      obtain rfl := mem_singleton.mp hst
      rfl
    | _ =>
      obtain ⟨_, _, rfl⟩ := mem_map.mp hst
      rfl
  · exact leads_enum (henums e he).1 (henums e he).2 st hst
  · obtain ⟨node, m, hnamed⟩ := hmessages c hc
    exact leads_message hnamed st hst
  · exact leads_of_single rfl rfl (hextensions e he)
  · exact hunknown rfl
  · exact leads_of_single rfl rfl hdescriptor

theorem bindsOnce_iff (hleads : ∀ st ∈ p.statements, Leads st) :
    p.BindsOnce ↔ p.statements.Pairwise fun st st' => st.MayClash st' → st.Apart st' := by
  refine ⟨fun honce => ?_, fun hopen => ?_⟩
  · refine List.Pairwise.imp ?_ honce
    exact fun hapart _ => hapart
  · refine List.Pairwise.imp_of_mem (fun {st st'} hst hst' hclash => ?_) hopen
    by_cases hmay : st.MayClash st'
    · exact hclash hmay
    · refine .inr fun name hname hname' => hmay fun start hstart start' hstart' => ?_
      exact (hleads st hst start hstart name hname).symm.trans
        (hleads st' hst' start' hstart' name hname')

/-- What a module keeps apart, whatever its file declares. It binds each of its names once if and
only if the statements do whose names may begin in the same way. The constants for defaults have
different names, none of which is the name of a constant that a public import makes visible. The
variants of a message class have different names, none of which is the name of a class for a type
in the message. -/
theorem bindsOnce_iff_mayClash {f : FileNode} {s s' : PlanState} {p : ModulePlan}
    (h : planModule ctx file f s = .ok p s') :
    (p.BindsOnce ↔ p.statements.Pairwise fun st st' => st.MayClash st' → st.Apart st') ∧
      ((p.messages.flatMap MessagePlan.defaultNames).Nodup ∧
        ∀ q ∈ p.forwards, ∀ name, .const name ∈ q.symbols →
          name ∉ p.messages.flatMap MessagePlan.defaultNames) ∧
      ∀ c ∈ p.messages, c.variants.Nodup ∧ ∃ node ∈ f.messages, ∃ m,
        ctx.arena.message? node = some m ∧ c.name = ctx.arena.camelName node ∧
          ∀ child ∈ m.nested ++ m.enums, ctx.arena.camelName child ∉ c.variants := by
  obtain ⟨_, s₀, _, h⟩ := bind_ok.mp h
  obtain ⟨forwards, s₁, hforwards, h⟩ := bind_ok.mp h
  obtain ⟨enums, s₂, henums, h⟩ := bind_ok.mp h
  obtain ⟨messages, s₃, hmessages, h⟩ := bind_ok.mp h
  obtain ⟨⟨extensions, members⟩, s₄, hextensions, h⟩ := bind_ok.mp h
  obtain ⟨imports, s₅, _, h⟩ := bind_ok.mp h
  obtain ⟨rfl, rfl⟩ := pure_ok.mp h
  obtain ⟨hfresh, hnamed⟩ := planMessages_named hmessages
  have hkept := (Grows.mapM ((growing ctx file).planEnum) _ henums).constants
  have henums : ∀ e ∈ enums.filterMap id,
      startsLower e.name.toList = false ∧ ∀ c ∈ e.constants, lead c.name = [] := by
    intro e he
    obtain ⟨_, he, rfl⟩ := mem_filterMap.mp he
    obtain ⟨_, _, _, _, _, henum, _⟩ :=
      exists_of_forall₂ (mapM_steps ((growing ctx file).planEnum) henums).flip he
    exact planEnum_named henum
  have hclasses : ∀ c ∈ messages.map (·.2), ∃ node m, MessageNamed ctx node m c := by
    refine forall_mem_map.mpr fun q hq => ?_
    obtain ⟨_, m, _, hq⟩ := hnamed q hq
    exact ⟨q.1, m, hq⟩
  have hvariables : ∀ e ∈ extensions, lead e.variableName = [] := fun e he => by
    obtain ⟨planned, rfl, _, hall⟩ := planExtensions_ok hextensions
    obtain ⟨x, hx, rfl⟩ := mem_map.mp he
    obtain ⟨_, _, hlinked⟩ := exists_of_forall₂ hall.flip hx
    exact hlinked.name ▸ lead_append "E_" _ (by decide)
  refine ⟨bindsOnce_iff (leads_statements henums hclasses hvariables
    (lead_append "fileDescriptor" _ (by decide))), ?_, ?_⟩
  · rw [flatMap_map]
    refine ⟨hfresh.nodup, fun q hq name hname hdefault => ?_⟩
    obtain ⟨_, hq, rfl⟩ := mem_filterMap.mp hq
    obtain ⟨_, _, t, t', _, hforward, hgrows⟩ :=
      exists_of_forall₂ (mapM_steps (growing ctx file).planForward hforwards).flip hq
    exact hfresh.new name hdefault
      (hkept (hgrows.constants (planForward_constants hforward name hname)))
  · refine forall_mem_map.mpr fun q hq => ?_
    obtain ⟨hnode, m, hm, hq⟩ := hnamed q hq
    exact ⟨hq.variants, q.1, hnode, m, hm, hq.name, hq.apart⟩

/-- A message with a variant and a constant of the same name. -/
def clashingFile : FileDecl where
  name? := some "a.proto"
  messages := [
    { name? := some "A"
      fields := [{ name? := some "f", number? := some 1, kind? := some .int32,
                   oneofIndex? := some 0 }]
      oneofs := [{ name? := some "o" }]
      enums := [{ name? := some "E", values := [{ name? := some "F", number? := some 0 }] }] }]

theorem bindsOnce_iff_mayClash_variant : ∃ ctx f p s',
    Context.build {} [clashingFile] [] = .ok ctx ∧ ctx.arena.file? 0 = some f ∧
      planModule ctx 0 f {} = .ok p s' ∧ ¬p.BindsOnce ∧
      (p.BindsOnce ↔ p.statements.Pairwise fun st st' => st.MayClash st' → st.Apart st') := by
  have hrun : ∃ ctx, Context.build {} [clashingFile] [] = .ok ctx ∧ ∃ f ∈ ctx.arena.file? 0,
      ∃ p s', planModule ctx 0 f {} = .ok p s' ∧ ¬p.BindsOnce := by decide +kernel
  obtain ⟨ctx, hbuild, f, hf, p, s', hplan, hclash⟩ := hrun
  exact ⟨ctx, f, p, s', hbuild, hf, hplan, hclash, (bindsOnce_iff_mayClash hplan).1⟩

end Planner

end Protobind
