import BellaLang.Proofs.Grammar.Building
import BellaLang.Proofs.Grammar.Completeness
import BellaLang.Proofs.Grammar.Modes

/-!
Where the nodes of a tree come from.

Every node of a tree has been made of some part of the derivation of its text: a name of a single
token, everything else by a rule.  Some rules only pass on what their parts have come to, such as
those for parentheses and for rows; every other rule makes one node, and the children of this node
are what the parts of the rule have come to, in order (`Rule.construct?_makes`).

  1. A part of a derivation occurs in it with some tokens in front and some behind
     (`Derivation.Occurs`).
  2. Whatever a derivation comes to, a part that occurs in it owns (`exists_owner`).
  3. So every node within the tree of a program is owned by a part of its derivation
     (`exists_owner_of_within`).
-/

namespace BellaLang

/-! ## What rules make -/

/-- What there is in a part, in order. -/
def Part.nodes : Part → List Node
  | .name id => [.ofName id]
  | .token _ => []
  | .node piece => [piece]
  | .row pieces => pieces

/-- Where an expression belongs, the node is still taken for what it is. -/
def Node.IsRegular (node : Node) : Prop := Node.ofExpr node.toExpr = node

/-- Does the rule only pass on what its parts have come to? -/
def Rule.isTransparent : Rule → Bool
  | .firstStatement | .nextStatement | .oneParam | .severalParams | .secondParam | .nextParam
  | .oneArg | .severalArgs | .secondArg | .nextArg | .parenthesised | .name
  | .disjunctionAlone | .conjunctionAlone | .comparisonAlone | .sumAlone | .productAlone
  | .unaryAlone | .powerAlone | .suffixedAlone | .primaryAlone => true
  | _ => false

/-- The block of a program, and any other node itself. -/
def Node.body : Node → Node
  | .program body => .statement (.block body)
  | node => node

/-- What has been made of some nodes: they are passed on, or they are the children of a node. -/
inductive Rule.Makes (rule : Rule) (site : Site) (nodes : List Node) : Part → Prop
  | passes {part : Part} (h : rule.isTransparent = true) (hnodes : part.nodes = nodes) :
      Makes rule site nodes part
  | node {piece : Node} (h : rule.isTransparent = false) (hchildren : piece.body.children = nodes)
      (hsite : piece.body.site = site) : Makes rule site nodes (.node piece)

theorem eq_map_of_mapM {α β : Type} {check : β → Option α} (wrap : α → β)
    (h : ∀ {b a}, check b = some a → b = wrap a) {bs : List β} {as : List α}
    (hall : bs.mapM check = some as) : bs = as.map wrap := by
  induction bs generalizing as with
  | nil =>
    rw [List.mapM_nil] at hall
    obtain rfl := Option.some.inj hall
    rfl
  | cons b bs ih =>
    rw [List.mapM_cons] at hall
    obtain ⟨a, ha, hmore⟩ := Option.bind_eq_some_iff.mp hall
    obtain ⟨rest, hrest, hcons⟩ := Option.bind_eq_some_iff.mp hmore
    obtain rfl := Option.some.inj hcons
    rw [List.map_cons, ← ih hrest, h ha]

theorem Node.eq_of_name? {node : Node} {id : Name} (h : node.name? = some id) :
    node = .ofName id := by
  unfold name? at h
  split at h <;> cases h
  rfl

theorem Node.eq_of_expression? {node : Node} {e : Expr} (h : node.expression? = some e) :
    node = .expression e := by
  unfold expression? at h
  split at h <;> cases h
  rfl

theorem Node.eq_of_statement? {node : Node} {s : Stmt} (h : node.statement? = some s) :
    node = .statement s := by
  unfold statement? at h
  split at h <;> cases h
  rfl

theorem Node.eq_of_block? {node : Node} {body : Block} (h : node.block? = some body) :
    node = .statement (.block body) := by
  unfold block? at h
  split at h <;> cases h
  rfl

/-- What is taken for an expression is found again among the children. -/
theorem Node.map_ofExpr {nodes : List Node} (h : ∀ node ∈ nodes, node.IsRegular) :
    (nodes.map toExpr).map ofExpr = nodes := by
  rw [List.map_map]
  exact (List.map_congr_left h).trans (List.map_id _)

theorem Node.exists_of_function? {site : Site} {id : Name} {params : List Node} {body node : Node}
    (h : function? site (.ofName id) params body = some node) :
    ∃ ids : List Name, params = ids.map .ofName ∧
      node = .statement (.function site id ids body.toExpr) := by
  obtain ⟨ids, hids, hnode⟩ := Option.bind_eq_some_iff.mp h
  exact ⟨ids, eq_map_of_mapM .ofName eq_of_name? hids, (Option.some.inj hnode).symm⟩

theorem Node.exists_of_array? {site : Site} {elements : List Node} {node : Node}
    (h : array? site elements = some node) :
    ∃ es : List Expr, elements = es.map .expression ∧ node = .expression (.array site es) := by
  obtain ⟨es, hes, hnode⟩ := Option.map_eq_some_iff.mp h
  exact ⟨es, eq_map_of_mapM .expression eq_of_expression? hes, hnode.symm⟩

theorem Node.exists_of_blockOf? {site : Site} {members : List Node} {node : Node}
    (h : blockOf? site members = some node) :
    ∃ ss : List Stmt, members = ss.map .statement ∧
      node = .statement (.block (.mk site ss)) := by
  obtain ⟨ss, hss, hnode⟩ := Option.map_eq_some_iff.mp h
  exact ⟨ss, eq_map_of_mapM .statement eq_of_statement? hss, hnode.symm⟩

theorem Node.exists_of_loop? {site : Site} {test body node : Node}
    (h : loop? site test body = some node) :
    ∃ block : Block, body = .statement (.block block) ∧
      node = .statement (.loop site test.toExpr block) := by
  obtain ⟨block, hblock, hnode⟩ := Option.map_eq_some_iff.mp h
  exact ⟨block, eq_of_block? hblock, hnode.symm⟩

/-- All pieces in the part are regular. -/
def Part.IsRegular (part : Part) : Prop := ∀ node ∈ part.nodes, node.IsRegular

/-- A node that is built of regular parts, with what they come to for its children. -/
theorem Rule.Makes.of_node {rule : Rule} {site : Site} {nodes : List Node} {piece : Node}
    (h : rule.isTransparent = false) (hchildren : piece.body.children = nodes)
    (hsite : piece.body.site = site) (hregular : piece.IsRegular) :
    rule.Makes site nodes (.node piece) ∧ (Part.node piece).IsRegular :=
  ⟨.node h hchildren hsite, fun node hnode => by rw [List.mem_singleton.mp hnode]; exact hregular⟩

/-- What is passed on is as regular as it was. -/
theorem Rule.Makes.of_passes {rule : Rule} {site : Site} {nodes : List Node} {part : Part}
    (h : rule.isTransparent = true) (hnodes : part.nodes = nodes)
    (hregular : ∀ node ∈ nodes, node.IsRegular) : rule.Makes site nodes part ∧ part.IsRegular :=
  ⟨.passes h hnodes, by rw [Part.IsRegular, hnodes]; exact hregular⟩

/-- **What a rule builds of its parts**: they are passed on, or they are the children of a node.
    Regular parts come to something regular. -/
theorem Rule.construct?_makes {rule : Rule} {site : Site} {parts : List Part} {part : Part}
    (h : rule.construct? site parts = some part)
    (hregular : ∀ node ∈ parts.flatMap Part.nodes, node.IsRegular) :
    rule.Makes site (parts.flatMap Part.nodes) part ∧ part.IsRegular := by
  unfold construct? at h
  split at h
  case h_52 => cases h
  all_goals simp only [List.flatMap_cons, List.flatMap_nil, List.append_nil, List.nil_append,
    List.cons_append, Part.nodes] at hregular ⊢
  case h_2 ss =>
    obtain ⟨node, hnode, hprogram⟩ := Option.bind_eq_some_iff.mp h
    obtain ⟨ss, rfl, rfl⟩ := Node.exists_of_blockOf? hnode
    obtain rfl := Option.some.inj hprogram
    exact Makes.of_node rfl rfl rfl rfl
  case h_4 ss =>
    obtain ⟨node, hnode, rfl⟩ := Option.map_eq_some_iff.mp h
    obtain ⟨ss, rfl, rfl⟩ := Node.exists_of_blockOf? hnode
    exact Makes.of_node rfl rfl rfl rfl
  case h_7 id params body =>
    obtain ⟨node, hnode, rfl⟩ := Option.map_eq_some_iff.mp h
    obtain ⟨ids, rfl, rfl⟩ := Node.exists_of_function? hnode
    have hbody : body.IsRegular := hregular body (by simp)
    refine Makes.of_node rfl ?_ rfl rfl
    show Node.ofName id :: (ids.map .ofName ++ [.ofExpr body.toExpr]) = _
    rw [hbody]
  case h_10 test body =>
    obtain ⟨node, hnode, rfl⟩ := Option.map_eq_some_iff.mp h
    obtain ⟨block, rfl, rfl⟩ := Node.exists_of_loop? hnode
    exact Makes.of_node rfl (Node.map_ofExpr hregular) rfl rfl
  case h_41 elements =>
    obtain ⟨node, hnode, rfl⟩ := Option.map_eq_some_iff.mp h
    obtain ⟨es, rfl, rfl⟩ := Node.exists_of_array? hnode
    have hchildren := Node.map_ofExpr hregular
    rw [Node.map_toExpr_map] at hchildren
    exact Makes.of_node rfl hchildren rfl rfl
  all_goals
    obtain rfl := Option.some.inj h
    first
    | exact Makes.of_passes rfl rfl hregular
    | exact Makes.of_node rfl (Node.map_ofExpr hregular) rfl rfl

/-! ## Parts that occur in a derivation -/

/-- A part occurs in the whole, with some tokens in front of it and some behind. -/
inductive Derivation.Occurs (whole : Derivation) : List Token → Derivation → List Token → Prop
  | whole : Occurs whole [] whole []
  | child {before after : List Token} {rule : Rule} {front back : List Derivation}
      {part : Derivation} (h : Occurs whole before (.ofRule rule (front ++ part :: back)) after) :
      Occurs whole (before ++ front.flatMap tokens) part (back.flatMap tokens ++ after)

/-- The children of a grammatical derivation by a rule. -/
theorem Derivation.IsGrammatical.of_ofRule {rule : Rule} {children : List Derivation}
    (h : (Derivation.ofRule rule children).IsGrammatical) :
    children.map symbol = rule.rhs ∧ ∀ child ∈ children, child.IsGrammatical := by
  obtain ⟨other, others, hsame, -, hsymbols, hothers⟩ := h.exists_rule rfl
  obtain ⟨rfl, -, rfl⟩ := node.inj hsame
  exact ⟨hsymbols, hothers⟩

namespace Derivation.Occurs

variable {whole part : Derivation} {before after : List Token}

theorem isGrammatical (h : whole.Occurs before part after) (hwhole : whole.IsGrammatical) :
    part.IsGrammatical := by
  induction h with
  | whole => exact hwhole
  | child h ih => exact ih.of_ofRule.2 _ (List.mem_append_right _ List.mem_cons_self)

theorem tokens_eq (h : whole.Occurs before part after) :
    whole.tokens = before ++ (part.tokens ++ after) := by
  induction h with
  | whole => rw [List.nil_append, List.append_nil]
  | child h ih =>
    rw [ih, tokens_ofRule, List.flatMap_append, List.flatMap_cons]
    simp only [List.append_assoc]

theorem trans {inner : Derivation} {u v : List Token} (h : whole.Occurs before part after)
    (hinner : part.Occurs u inner v) : whole.Occurs (before ++ u) inner (v ++ after) := by
  induction hinner with
  | whole =>
    rw [List.append_nil, List.nil_append]
    exact h
  | child hinner ih =>
    have hnext := ih.child
    simp only [List.append_assoc] at hnext ⊢
    exact hnext

/-- A child of a rule occurs in its phrase. -/
theorem of_mem (rule : Rule) {children : List Derivation} (h : part ∈ children) :
    ∃ u v, (Derivation.ofRule rule children).Occurs u part v := by
  obtain ⟨front, back, rfl⟩ := List.append_of_mem h
  exact ⟨_, _, .child .whole⟩

/-- **In front of a part the mode is one that the part can come in.** -/
theorem mode (h : whole.Occurs before part after) (hwhole : whole.IsGrammatical) {mode : Mode}
    (hmode : (mode.over? whole.symbol).isSome = true) :
    ∃ here, mode.after? before = some here ∧ (here.over? part.symbol).isSome = true := by
  induction h with
  | whole => exact ⟨mode, rfl, hmode⟩
  | @child before after rule front back part h ih =>
    obtain ⟨here, hbefore, hover⟩ := ih
    obtain ⟨hsymbols, hchildren⟩ := (h.isGrammatical hwhole).of_ofRule
    obtain ⟨last, hlast⟩ := Option.isSome_iff_exists.mp hover
    obtain ⟨rfl, -⟩ := Option.ite_none_right_eq_some.mp hlast
    have hmodes := rule.modes
    rw [← hsymbols, List.map_append, List.map_cons, List.foldlM_append] at hmodes
    obtain ⟨between, hfront, hrest⟩ := Option.bind_eq_some_iff.mp hmodes
    rw [List.foldlM_cons] at hrest
    obtain ⟨behind, hpart, -⟩ := Option.bind_eq_some_iff.mp hrest
    have htokens : rule.lhs.start.after? (front.flatMap tokens) = some between :=
      Mode.after?_flatMap
        (fun d hd => (hchildren d (List.mem_append_left _ hd)).mode) hfront
    refine ⟨between, ?_, Option.isSome_of_mem hpart⟩
    rw [Mode.after?_append, hbefore]
    exact htokens

end Derivation.Occurs

/-! ## Owners -/

/-- What there is in a derivation, in order: what it is read as. -/
def Derivation.nodes (source : String) (d : Derivation) : List Node :=
  (d.parts source).flatMap Part.nodes

/-- The part of a derivation has made the node: it is a name, or a rule that has built the node or
    the block of it. -/
inductive Derivation.Owns (source : String) : Derivation → Node → Prop
  | name {token : Token} (h : token.terminal = .name) :
      Owns source (.leaf token) (.ofName (token.toName source))
  | rule {rule : Rule} {children : List Derivation} {piece node : Node}
      (h : rule.isTransparent = false)
      (hparts : (Derivation.ofRule rule children).parts source = [.node piece])
      (hnode : node = piece ∨ node = piece.body) : Owns source (.ofRule rule children) node

section

variable {source : String} {d : Derivation}

theorem Derivation.nodes_leaf (source : String) (token : Token) :
    (Derivation.leaf token).nodes source =
      if token.terminal = .name then [.ofName (token.toName source)] else [] := by
  show (token.parts source).flatMap Part.nodes = _
  unfold Token.parts
  cases token.terminal <;> rfl

/-- What a rule makes of a grammatical derivation, as far as its parts are regular. -/
theorem Derivation.exists_makes (source : String) {rule : Rule} {children : List Derivation}
    (hsymbols : children.map symbol = rule.rhs)
    (hregular : ∀ node ∈ children.flatMap (nodes source), node.IsRegular) :
    ∃ part, (Derivation.ofRule rule children).parts source = [part] ∧
      rule.Makes (siteIn source (joinExtents (children.map extent?)))
        (children.flatMap (nodes source)) part ∧ part.IsRegular := by
  obtain ⟨part, hconstruct, hparts⟩ := Option.map_eq_some_iff.mp (construct?_eq source hsymbols)
  have hnodes : (children.flatMap (·.parts source)).flatMap Part.nodes =
      children.flatMap (nodes source) := List.flatMap_assoc
  have hmakes := Rule.construct?_makes hconstruct (by rw [hnodes]; exact hregular)
  rw [hnodes] at hmakes
  exact ⟨part, hparts.symm, hmakes⟩

/-- Whatever a grammatical derivation comes to is regular. -/
theorem Derivation.IsGrammatical.isRegular (h : d.IsGrammatical) :
    ∀ node ∈ d.nodes source, node.IsRegular := by
  induction h with
  | leaf token =>
    intro node hnode
    rw [nodes_leaf] at hnode
    split at hnode
    · rw [List.mem_singleton.mp hnode]
      rfl
    · exact absurd hnode List.not_mem_nil
  | ofRule rule children hsymbols hchildren ih =>
    have hregular : ∀ node ∈ children.flatMap (nodes source), node.IsRegular := by
      intro node hnode
      obtain ⟨child, hchild, hmem⟩ := List.mem_flatMap.mp hnode
      exact ih child hchild node hmem
    obtain ⟨part, hparts, -, hpart⟩ := exists_makes source hsymbols hregular
    rw [nodes, hparts, List.flatMap_singleton]
    exact hpart

/-- What the rule of a grammatical derivation makes of its parts. -/
theorem Derivation.IsGrammatical.exists_makes (source : String) {rule : Rule}
    {children : List Derivation} (h : (Derivation.ofRule rule children).IsGrammatical) :
    ∃ part, (Derivation.ofRule rule children).parts source = [part] ∧
      rule.Makes (siteIn source (Derivation.ofRule rule children).extent?)
        (children.flatMap (nodes source)) part := by
  obtain ⟨hsymbols, hchildren⟩ := h.of_ofRule
  have hregular : ∀ node ∈ children.flatMap (nodes source), node.IsRegular := by
    intro node hnode
    obtain ⟨child, hchild, hmem⟩ := List.mem_flatMap.mp hnode
    exact (hchildren child hchild).isRegular node hmem
  obtain ⟨part, hparts, hmakes, -⟩ := Derivation.exists_makes source hsymbols hregular
  exact ⟨part, hparts, hmakes⟩

theorem Node.site_body (node : Node) : node.body.site = node.site := by
  cases node <;> rfl

/-- What the rule of a grammatical derivation makes comes from where its tokens stand, and the
    children of it are what the parts have come to. -/
theorem Derivation.IsGrammatical.piece_made {rule : Rule} {children : List Derivation}
    {piece : Node} (h : (Derivation.ofRule rule children).IsGrammatical)
    (hrule : rule.isTransparent = false)
    (hparts : (Derivation.ofRule rule children).parts source = [.node piece]) :
    piece.body.children = children.flatMap (nodes source) ∧
      piece.site = rowSite source (Derivation.ofRule rule children).tokens := by
  obtain ⟨part, hpart, hmakes⟩ := h.exists_makes source
  rw [hparts] at hpart
  obtain rfl := List.singleton_inj.mp hpart
  cases hmakes with
  | passes htransparent =>
    rw [hrule] at htransparent
    cases htransparent
  | node _ hchildren hsite =>
    refine ⟨hchildren, ?_⟩
    rw [← piece.site_body, hsite, h.extent_eq, rowSite]

/-- **Whatever a derivation comes to, a part of it owns.** -/
theorem Derivation.IsGrammatical.exists_owner (h : d.IsGrammatical) {node : Node}
    (hnode : node ∈ d.nodes source) :
    ∃ before owner after, d.Occurs before owner after ∧ owner.Owns source node := by
  induction h with
  | leaf token =>
    rw [nodes_leaf] at hnode
    split at hnode
    · rename_i hname
      rw [List.mem_singleton.mp hnode]
      exact ⟨[], .leaf token, [], .whole, .name hname⟩
    · exact absurd hnode List.not_mem_nil
  | ofRule rule children hsymbols hchildren ih =>
    obtain ⟨part, hparts, hmakes⟩ :=
      IsGrammatical.exists_makes source (.ofRule rule children hsymbols hchildren)
    rw [nodes, hparts, List.flatMap_singleton] at hnode
    cases hmakes with
    | passes h hnodes =>
      rw [hnodes] at hnode
      obtain ⟨child, hchild, hmem⟩ := List.mem_flatMap.mp hnode
      obtain ⟨u, v, hoccurs⟩ := Occurs.of_mem rule hchild
      obtain ⟨before, owner, after, hinner, howns⟩ := ih child hchild hmem
      exact ⟨_, owner, _, hoccurs.trans hinner, howns⟩
    | node h hbody hsite =>
      exact ⟨[], _, [], .whole, .rule h hparts (.inl (List.mem_singleton.mp hnode))⟩

/-- The children of a node are owned by parts of its owner. -/
theorem Derivation.Owns.exists_owner_of_child {owner : Derivation} {node child : Node}
    (h : owner.Owns source node) (hgrammatical : owner.IsGrammatical)
    (hchild : child ∈ node.children) :
    ∃ before part after, owner.Occurs before part after ∧ part.Owns source child := by
  cases h with
  | name h => exact absurd hchild List.not_mem_nil
  | @rule rule children piece node h hparts hnode =>
    have hinner : child ∈ piece.body.children →
        ∃ before part after, (Derivation.ofRule rule children).Occurs before part after ∧
          part.Owns source child := by
      intro hmem
      rw [(hgrammatical.piece_made h hparts).1] at hmem
      obtain ⟨inner, hinner, hnodes⟩ := List.mem_flatMap.mp hmem
      obtain ⟨u, v, hoccurs⟩ := Occurs.of_mem rule hinner
      obtain ⟨before, part, after, hpart, howns⟩ :=
        (hgrammatical.of_ofRule.2 inner hinner).exists_owner hnodes
      exact ⟨_, part, _, hoccurs.trans hpart, howns⟩
    rcases hnode with rfl | rfl
    · cases node with
      | program body =>
        -- The block of a program is owned by the same part.
        obtain rfl := List.mem_singleton.mp hchild
        exact ⟨[], _, [], .whole, .rule h hparts (.inr rfl)⟩
      | nothing | expression _ | statement _ => exact hinner hchild
    · exact hinner hchild

/-- **Every node of a program is owned** by a part of the derivation that it is made from. -/
theorem Derivation.IsGrammatical.exists_owner_of_within (h : d.IsGrammatical)
    (hsymbol : d.symbol = .phrase .program) {node : Node}
    (hnode : Node.Within (.program (d.toProgram source).block) node) :
    ∃ before owner after, d.Occurs before owner after ∧ owner.Owns source node := by
  induction hnode with
  | refl =>
    obtain ⟨rule, children, rfl, hlhs, -, -⟩ := h.exists_rule hsymbol
    have hparts : (Derivation.ofRule rule children).parts source =
        [.node (.program ((Derivation.ofRule rule children).toProgram source).block)] :=
      if_pos hlhs
    have htransparent : rule.isTransparent = false := by cases rule <;> first | rfl | cases hlhs
    exact ⟨[], _, [], .whole, .rule htransparent hparts (.inl rfl)⟩
  | tail _ hchild ih =>
    obtain ⟨before, owner, after, hoccurs, howns⟩ := ih
    obtain ⟨u, part, v, hpart, hpartOwns⟩ :=
      howns.exists_owner_of_child (hoccurs.isGrammatical h) hchild
    exact ⟨_, part, _, hoccurs.trans hpart, hpartOwns⟩

/-! ## The rows of tokens of owners -/

/-- The parts of a rule are no programs. -/
theorem Derivation.symbol_ne_program {rule : Rule} {children : List Derivation}
    (hsymbols : children.map symbol = rule.rhs) {child : Derivation} (hchild : child ∈ children) :
    child.symbol ≠ .phrase .program := by
  intro hprogram
  refine rule.program_not_mem_rhs ?_
  rw [← hsymbols, ← hprogram]
  exact List.mem_map_of_mem hchild

/-- A program is no part of anything else. -/
theorem Derivation.Occurs.eq_of_program {whole part : Derivation} {before after : List Token}
    (h : whole.Occurs before part after) (hwhole : whole.IsGrammatical)
    (hsymbol : part.symbol = .phrase .program) : part = whole := by
  cases h with
  | whole => rfl
  | child h =>
    have hsymbols := (h.isGrammatical hwhole).of_ofRule.1
    exact absurd hsymbol
      (symbol_ne_program hsymbols (List.mem_append_right _ List.mem_cons_self))

/-- Nothing but a program can do without tokens. -/
theorem Derivation.IsGrammatical.tokens_ne_nil (h : d.IsGrammatical)
    (hsymbol : d.symbol ≠ .phrase .program) : d.tokens ≠ [] := by
  obtain ⟨token, rest, htokens, -⟩ := h.exists_first hsymbol
  rw [htokens]
  exact List.cons_ne_nil token rest

/-- The nodes have rows of tokens of their own, one behind the other within the tokens. -/
def InRows (source : String) (nodes : List Node) (tokens : List Token) : Prop :=
  ∃ rows : List (List Token), nodes.map Node.site = rows.map (rowSite source) ∧
    rows.flatten.Sublist tokens ∧ ∀ row ∈ rows, row ≠ []

theorem InRows.singleton {node : Node} {tokens : List Token}
    (hsite : node.site = rowSite source tokens) (hne : tokens ≠ []) :
    InRows source [node] tokens := by
  refine ⟨[tokens], by rw [List.map_singleton, hsite, List.map_singleton], ?_, ?_⟩
  · simpa only [List.flatten_singleton] using List.Sublist.refl tokens
  · intro row hrow
    rw [List.mem_singleton.mp hrow]
    exact hne

theorem InRows.flatMap {children : List Derivation}
    (h : ∀ child ∈ children, InRows source (child.nodes source) child.tokens) :
    InRows source (children.flatMap (Derivation.nodes source))
      (children.flatMap Derivation.tokens) := by
  induction children with
  | nil => exact ⟨[], rfl, List.Sublist.refl [], nofun⟩
  | cons child rest ih =>
    obtain ⟨rows, hsites, hsub, hne⟩ := h child List.mem_cons_self
    obtain ⟨others, hothers, hothersSub, hothersNe⟩ :=
      ih fun d hd => h d (List.mem_cons_of_mem child hd)
    refine ⟨rows ++ others, ?_, ?_, List.forall_mem_append.mpr ⟨hne, hothersNe⟩⟩
    · rw [List.flatMap_cons, List.map_append, List.map_append, hsites, hothers]
    · rw [List.flatMap_cons, List.flatten_append]
      exact hsub.append hothersSub

/-- What a grammatical derivation comes to has rows of its tokens. -/
theorem Derivation.IsGrammatical.inRows (h : d.IsGrammatical)
    (hsymbol : d.symbol ≠ .phrase .program) : InRows source (d.nodes source) d.tokens := by
  induction h with
  | leaf token =>
    rw [nodes_leaf]
    split
    · exact .singleton rfl (List.cons_ne_nil _ _)
    · exact ⟨[], rfl, List.nil_sublist _, nofun⟩
  | ofRule rule children hsymbols hchildren ih =>
    have hgrammatical := IsGrammatical.ofRule rule children hsymbols hchildren
    obtain ⟨part, hparts, hmakes⟩ := hgrammatical.exists_makes source
    rw [nodes, hparts, List.flatMap_singleton]
    cases hmakes with
    | passes _ hnodes =>
      rw [hnodes, tokens_ofRule]
      exact .flatMap fun child hchild => ih child hchild (symbol_ne_program hsymbols hchild)
    | @node piece _ _ hsite =>
      refine .singleton ?_ (hgrammatical.tokens_ne_nil hsymbol)
      rw [← piece.site_body, hsite, hgrammatical.extent_eq, rowSite]

namespace Derivation.Owns

variable {owner : Derivation} {node : Node}

/-- A node comes from where the tokens of its owner stand. -/
theorem site_eq (h : owner.Owns source node) (hgrammatical : owner.IsGrammatical) :
    node.site = rowSite source owner.tokens := by
  cases h with
  | name h => rfl
  | @rule rule children piece node h hparts hnode =>
    have hsite := (hgrammatical.piece_made h hparts).2
    rcases hnode with rfl | rfl
    · exact hsite
    · rw [piece.site_body, hsite]

/-- **The children of a node have rows of its tokens**, one behind the other. -/
theorem inRows (h : owner.Owns source node) (hgrammatical : owner.IsGrammatical)
    (hne : owner.tokens ≠ []) : InRows source node.children owner.tokens := by
  have hsite := h.site_eq hgrammatical
  cases h with
  | name h => exact ⟨[], rfl, List.nil_sublist _, nofun⟩
  | @rule rule children piece node h hparts hnode =>
    have hinner : InRows source piece.body.children (Derivation.ofRule rule children).tokens := by
      obtain ⟨hsymbols, hall⟩ := hgrammatical.of_ofRule
      rw [(hgrammatical.piece_made h hparts).1, tokens_ofRule]
      exact .flatMap fun child hchild =>
        (hall child hchild).inRows (symbol_ne_program hsymbols hchild)
    rcases hnode with rfl | rfl
    · cases node with
      | program body => exact .singleton hsite hne
      | nothing | expression _ | statement _ => exact hinner
    · exact hinner

end Derivation.Owns

end

end BellaLang
