import ContractAudit.Node.Build
import ContractAudit.Proofs.Node.Walk
import ContractAudit.Proofs.Report.Json

namespace ContractAudit

namespace Node

/-- What a value stands for in the JSON form of a tree. -/
inductive Role where
  | node
  | nodes
  | location
  | construct
  | parts (kind : String)
  | scalar

namespace Role

def ofParts : String → List (String × Role)
  | "SourceUnit" => [("children", nodes)]
  | "PragmaDirective" => [("name", scalar), ("value", scalar)]
  | "ContractDefinition" => [("name", scalar), ("sub_nodes", nodes)]
  | "FunctionDefinition" =>
    [("name", scalar), ("visibility", scalar), ("is_constructor", scalar), ("parameters", nodes),
      ("modifiers", nodes), ("body", node)]
  | "ModifierDefinition" => [("name", scalar), ("body", node)]
  | "ModifierInvocation" => [("name", scalar), ("arguments", nodes)]
  | "VariableDeclaration" =>
    [("name", scalar), ("type_name", scalar), ("is_state_var", scalar), ("initial_value", node)]
  | "Block" => [("statements", nodes)]
  | "BinaryOperation" => [("operator", scalar), ("left", node), ("right", node)]
  | "Assignment" => [("operator", scalar), ("left", node), ("right", node)]
  | "FunctionCall" => [("expression", node), ("options", nodes), ("arguments", nodes)]
  | "MemberAccess" => [("expression", node), ("member_name", scalar)]
  | "Identifier" => [("name", scalar)]
  | "Literal" => [("value", scalar)]
  | "Other" => [("kind", scalar), ("children", nodes)]
  | _ => []

def field? : Role → String → Option Role
  | .node, name => [("loc", location), ("kind", construct)].lookup name
  | .location, name => [("line", scalar), ("column", scalar)].lookup name
  | .construct, kind => some (.parts kind)
  | .parts kind, name => (ofParts kind).lookup name
  | .nodes, _ => none
  | .scalar, _ => none

end Role

mutual

/-- A value without the fields that the records in it do not know. -/
def known : Role → Json → Json
  | .scalar, json => json
  | .nodes, .array items => .array (knownItems items)
  | .nodes, json => json
  | role, .object fields => .object (knownFields role fields)
  | _, json => json

def knownItems : List Json → List Json
  | [] => []
  | item :: items => known .node item :: knownItems items

def knownFields (role : Role) : List (String × Json) → List (String × Json)
  | [] => []
  | (name, value) :: fields =>
    match role.field? name with
    | some inner => (name, known inner value) :: knownFields role fields
    | none => knownFields role fields

end

def Fits (tree : Node) : Prop := ∀ n ∈ tree.preorder, n.loc.Fits

instance (loc : Location) : Decidable loc.Fits :=
  decidable_of_iff (loc.line < UInt64.size ∧ loc.column < UInt64.size)
    ⟨fun h ↦ ⟨h.1, h.2⟩, fun h ↦ ⟨h.line, h.column⟩⟩

instance (tree : Node) : Decidable tree.Fits :=
  inferInstanceAs (Decidable (∀ n ∈ tree.preorder, n.loc.Fits))

theorem known_scalar (json : Json) : known .scalar json = json := by
  cases json <;> rfl

theorem knownItems_eq_map (items : List Json) : knownItems items = items.map (known .node) := by
  induction items with
  | nil => rfl
  | cons item items ih => rw [knownItems, ih, List.map_cons]

theorem toJsonAll_eq_map (nodes : List Node) : toJsonAll nodes = nodes.map toJson := by
  induction nodes with
  | nil => rfl
  | cons node nodes ih => rw [toJsonAll, ih, List.map_cons]

variable {role inner : Role} {fields written : List (String × Json)} {name : String}

theorem field?_knownFields (h : role.field? name = some inner) (fields : List (String × Json)) :
    Json.field? (knownFields role fields) name = (Json.field? fields name).map (known inner) := by
  induction fields with
  | nil => rfl
  | cons field fields ih =>
    obtain ⟨key, value⟩ := field
    rw [knownFields, Json.field?]
    by_cases hkey : key = name
    · subst hkey
      simp [h, Json.field?]
    · rw [if_neg hkey, ← ih]
      cases role.field? key with
      | none => rfl
      | some other => simp [Json.field?, hkey]

theorem occurrences_knownFields (h : role.field? name = some inner)
    (fields : List (String × Json)) :
    Json.occurrences (knownFields role fields) name = Json.occurrences fields name := by
  induction fields with
  | nil => rfl
  | cons field fields ih =>
    obtain ⟨key, value⟩ := field
    simp only [Json.occurrences] at ih ⊢
    rw [knownFields, List.countP_cons]
    by_cases hkey : key = name
    · subst hkey
      simp [h, ih]
    · cases role.field? key with
      | none => simp [hkey, ih]
      | some other => simp [hkey, ih]

theorem exists_of_mem_knownFields {value : Json} (h : (name, value) ∈ knownFields role fields) :
    ∃ inner, role.field? name = some inner := by
  induction fields with
  | nil => cases h
  | cons field fields ih =>
    obtain ⟨key, first⟩ := field
    rw [knownFields] at h
    cases hkey : role.field? key with
    | none =>
      rw [hkey] at h
      exact ih h
    | some inner =>
      rw [hkey] at h
      rcases List.mem_cons.mp h with heq | h
      · cases heq
        exact ⟨inner, hkey⟩
      · exact ih h

def Standing (role : Role) (fields : List (String × Json)) (entry : String × Json) (value : Json) :
    Prop :=
  known ((role.field? entry.1).getD .scalar) value = entry.2 ∧
    value.depth ≤ Json.depthFields fields

theorem exists_standing (h : knownFields role fields = written)
    (hn : (written.map Prod.fst).Nodup) {entry : String × Json} (he : entry ∈ written) :
    Json.occurrences fields entry.1 ≤ 1 ∧
      ∃ value, Json.field? fields entry.1 = some value ∧ Standing role fields entry value := by
  obtain ⟨inner, hinner⟩ := exists_of_mem_knownFields (h ▸ he)
  constructor
  · rw [← occurrences_knownFields hinner, h, Json.occurrences_eq_count]
    exact List.nodup_iff_count_le_one.mp hn entry.1
  · have hfield := field?_knownFields hinner fields
    rw [h, Json.field?_of_mem hn he] at hfield
    obtain ⟨value, hvalue, hknown⟩ := Option.map_eq_some_iff.mp hfield.symm
    refine ⟨value, hvalue, ?_, Json.depth_le_depthFields (Json.mem_of_field? hvalue)⟩
    rw [hinner]
    exact hknown

theorem record?_of_knownFields (h : knownFields role fields = written)
    (hn : (written.map Prod.fst).Nodup) (least : Nat) :
    ∃ values, Json.record? (written.map Prod.fst) least (.object fields) =
        some (values.map some) ∧
      List.Forall₂ (Standing role fields) written values := by
  have hall : (written.map Prod.fst).all (Json.occurrences fields · ≤ 1) := by
    simp only [List.all_eq_true, decide_eq_true_eq]
    intro name hname
    obtain ⟨entry, he, rfl⟩ := List.mem_map.mp hname
    exact (exists_standing h hn he).1
  -- The induction is on a part of the fields, since they are looked up in the whole record.
  have hvalues (entries : List (String × Json)) (hsub : ∀ entry ∈ entries, entry ∈ written) :
      ∃ values, (entries.map Prod.fst).map (Json.field? fields) = values.map some ∧
        List.Forall₂ (Standing role fields) entries values := by
    induction entries with
    | nil => exact ⟨[], rfl, .nil⟩
    | cons entry entries ih =>
      obtain ⟨hentry, hentries⟩ := List.forall_mem_cons.mp hsub
      obtain ⟨values, hmap, hstanding⟩ := ih hentries
      obtain ⟨-, value, hvalue, hfirst⟩ := exists_standing h hn hentry
      exact ⟨value :: values, by simp [hvalue, ← hmap], .cons hfirst hstanding⟩
  obtain ⟨values, hmap, hstanding⟩ := hvalues written fun _ he ↦ he
  exact ⟨values, by rw [Json.record?, if_pos hall, hmap], hstanding⟩

variable {json : Json}

theorem exists_object_of_known (hs : role ≠ .scalar) (hr : role ≠ .nodes)
    (h : known role json = .object written) :
    ∃ fields, json = .object fields ∧ knownFields role fields = written := by
  cases json with
  | object fields =>
    rw [known] at h
    · exact ⟨fields, rfl, Json.object.inj h⟩
    · exact hs
    · exact hr
  | _ => cases role <;> simp_all [known]

theorem isObject_toJson (node : Node) : ∃ fields, node.toJson = .object fields := by
  cases node <;> exact ⟨_, rfl⟩

variable {value : Json} {read : Json → Option Node} {depth : Nat}

/-- The reader gives back each of the nodes from any value of at most the given depth that writes
it. -/
def ReadsBack (read : Json → Option Node) (depth : Nat) (nodes : List Node) : Prop :=
  ∀ node ∈ nodes, ∀ json : Json, json.depth ≤ depth → known .node json = node.toJson →
    read json = some node

theorem list?_of_known {nodes : List Node} (h : known .nodes value = .array (toJsonAll nodes))
    (hd : value.depth ≤ depth) (hread : ReadsBack read depth nodes) :
    value.list? read = some nodes := by
  cases value with
  | array items =>
    have hitems : items.map (known .node) = nodes.map toJson := by
      rw [← knownItems_eq_map, ← toJsonAll_eq_map]
      exact Json.array.inj h
    have hdepth : ∀ item ∈ items, item.depth ≤ depth := by
      intro item hitem
      have hle := Json.depth_le_depthItems hitem
      rw [Json.depth] at hd
      omega
    rw [Json.list?]
    clear h hd
    induction nodes generalizing items with
    | nil =>
      obtain rfl := List.map_eq_nil_iff.mp hitems
      rfl
    | cons node nodes ih =>
      obtain ⟨item, items, rfl, hitem, hrest⟩ := List.map_eq_cons_iff.mp hitems
      obtain ⟨hdepth, hdepths⟩ := List.forall_mem_cons.mp hdepth
      have hfirst := hread node List.mem_cons_self item hdepth hitem
      have hothers := ih (fun n hn ↦ hread n (List.mem_cons_of_mem _ hn)) items hrest hdepths
      simp [List.mapM_cons, hfirst, hothers]
  | _ => simp [known] at h

theorem optional?_of_known {body : Option Node} (h : known .node value = toJsonOption body)
    (hd : value.depth ≤ depth) (hread : ReadsBack read depth body.toList) :
    Json.optional? read (some value) = some body := by
  cases body with
  | none =>
    cases value <;> simp_all [known, toJsonOption, Json.optional?]
  | some node =>
    have hvalue := hread node (by simp) value hd h
    -- A node is an object, so it is not taken for a part that is absent.
    obtain ⟨fields, hfields⟩ := isObject_toJson node
    rw [toJsonOption, hfields] at h
    obtain ⟨other, rfl, -⟩ := exists_object_of_known (by simp) (by simp) h
    simp [Json.optional?, hvalue]

theorem optionalText_of_known {s : Option String}
    (h : known .scalar value = Json.optionalText s) :
    Json.optional? Json.text? (some value) = some s := by
  rw [known_scalar] at h
  subst h
  cases s <;> rfl

theorem visibility_of_known {visibility : Visibility}
    (h : known .scalar value = visibility.toJson) :
    Visibility.ofJson? value = some visibility := by
  rw [known_scalar] at h
  subst h
  cases visibility <;> rfl

theorem location_of_known {loc : Location} (hloc : loc.Fits)
    (h : known .location value = loc.toJson) : Location.ofJson? value = some loc := by
  obtain ⟨fields, rfl, hfields⟩ := exists_object_of_known (by simp) (by simp) h
  obtain ⟨values, hrecord, hstanding⟩ := record?_of_knownFields hfields (by simp) 2
  obtain _ | ⟨⟨hline, -⟩, _ | ⟨⟨hcolumn, -⟩, _ | _⟩⟩ := hstanding
  change known .scalar _ = _ at hline
  change known .scalar _ = _ at hcolumn
  rw [known_scalar] at hline hcolumn
  subst hline hcolumn
  have hrecord' : Json.record? ["line", "column"] 2 (.object fields) =
    some [some (.nat loc.line), some (.nat loc.column)] := hrecord
  simp [Location.ofJson?, hrecord', Json.nat64?_nat hloc.line, Json.nat64?_nat hloc.column]

theorem text?_of_known {s : String} (h : known .scalar value = .text s) :
    value.text? = some s := by
  rw [known_scalar] at h
  subst h
  rfl

theorem ReadsBack.of_subset {nodes others : List Node} (h : ReadsBack read depth nodes)
    (hs : ∀ node ∈ others, node ∈ nodes) : ReadsBack read depth others :=
  fun node hn ↦ h node (hs node hn)

theorem bool?_of_known {b : Bool} (h : known .scalar value = .bool b) : value.bool? = some b := by
  rw [known_scalar] at h
  subst h
  rfl

theorem nodup_names_of_toJson {node : Node} {loc : Location} {kind : String}
    (hj : node.toJson = jsonAt loc kind written) : (written.map Prod.fst).Nodup := by
  cases node <;>
    (simp only [toJson, jsonAt, Json.object.injEq, List.cons.injEq, Prod.mk.injEq] at hj
     obtain ⟨-, ⟨-, ⟨-, rfl⟩, -⟩, -⟩ := hj
     simp)

/-- A construct is read from the record of its parts, unknown fields aside. -/
theorem construct?_of_known {node : Node} {kind : String}
    (hj : node.toJson = jsonAt node.loc kind written)
    (hw : knownFields (.parts kind) fields = written) (hd : Json.depthFields fields ≤ depth)
    (hread : ReadsBack read depth node.children) :
    construct? read node.loc kind (.object fields) = some node := by
  obtain ⟨values, hrecord, hstanding⟩ :=
    record?_of_knownFields hw (nodup_names_of_toJson hj) written.length
  have hnode {child value : _} (hc : child ∈ node.children)
      (h : known .node value = child.toJson) (hv : value.depth ≤ Json.depthFields fields) :
      read value = some child := hread child hc value (hv.trans hd) h
  have hlist {nodes : List Node} {value : Json} (hc : ∀ n ∈ nodes, n ∈ node.children)
      (h : known .nodes value = .array (toJsonAll nodes))
      (hv : value.depth ≤ Json.depthFields fields) : value.list? read = some nodes :=
    list?_of_known h (hv.trans hd) (hread.of_subset hc)
  have hoption {body : Option Node} {value : Json} (hc : ∀ n ∈ body.toList, n ∈ node.children)
      (h : known .node value = toJsonOption body) (hv : value.depth ≤ Json.depthFields fields) :
      Json.optional? read (some value) = some body :=
    optional?_of_known h (hv.trans hd) (hread.of_subset hc)
  cases node <;>
    (simp only [toJson, jsonAt, Json.object.injEq, List.cons.injEq, Prod.mk.injEq] at hj
     obtain ⟨-, ⟨-, ⟨rfl, rfl⟩, -⟩, -⟩ := hj
     simp only [List.map_cons, List.map_nil, List.length_cons, List.length_nil] at hrecord)
  case sourceUnit loc nodes | block loc nodes =>
    obtain _ | ⟨⟨hn, hdn⟩, _ | _⟩ := hstanding
    have hnodes := hlist (by simp [children]) hn hdn
    simp [construct?, parts?, hrecord, hnodes, Node.loc]
  case pragma loc name text =>
    obtain _ | ⟨⟨hn, -⟩, _ | ⟨⟨ht, -⟩, _ | _⟩⟩ := hstanding
    simp [construct?, parts?, hrecord, text?_of_known hn, text?_of_known ht, Node.loc]
  case contract loc name nodes | modifierInvocation loc name nodes | other loc name nodes =>
    obtain _ | ⟨⟨ht, -⟩, _ | ⟨⟨hn, hdn⟩, _ | _⟩⟩ := hstanding
    have hnodes := hlist (by simp [children]) hn hdn
    simp [construct?, parts?, hrecord, text?_of_known ht, hnodes, Node.loc]
  case function loc header parameters modifiers body =>
    obtain _ | ⟨⟨hn, -⟩, _ | ⟨⟨hv, -⟩, _ | ⟨⟨hc, -⟩, _ | ⟨⟨hp, hdp⟩, _ | ⟨⟨hm, hdm⟩,
      _ | ⟨⟨hb, hdb⟩, _ | _⟩⟩⟩⟩⟩⟩ := hstanding
    have hparameters := hlist (by intro n hn; simp [children, hn]) hp hdp
    have hmodifiers := hlist (by intro n hn; simp [children, hn]) hm hdm
    have hbody := hoption (by intro n hn; simp [children, hn]) hb hdb
    simp [construct?, hrecord, optionalText_of_known hn, visibility_of_known hv,
      bool?_of_known hc, hparameters, hmodifiers, hbody, Node.loc]
  case modifierDefinition loc name body =>
    obtain _ | ⟨⟨hn, -⟩, _ | ⟨⟨hb, hdb⟩, _ | _⟩⟩ := hstanding
    have hbody := hoption (by simp [children]) hb hdb
    simp [construct?, parts?, hrecord, text?_of_known hn, hbody, Node.loc]
  case declaration loc header initial =>
    obtain _ | ⟨⟨hn, -⟩, _ | ⟨⟨ht, -⟩, _ | ⟨⟨hs, -⟩, _ | ⟨⟨hi, hdi⟩, _ | _⟩⟩⟩⟩ := hstanding
    have hinitial := hoption (by simp [children]) hi hdi
    simp [construct?, parts?, hrecord, text?_of_known hn, optionalText_of_known ht,
      bool?_of_known hs, hinitial, Node.loc]
  case binary loc operator left right | assignment loc operator left right =>
    obtain _ | ⟨⟨ho, -⟩, _ | ⟨⟨hl, hdl⟩, _ | ⟨⟨hr, hdr⟩, _ | _⟩⟩⟩ := hstanding
    have hleft := hnode (by simp [children]) hl hdl
    have hright := hnode (by simp [children]) hr hdr
    simp [construct?, parts?, hrecord, text?_of_known ho, hleft, hright, Node.loc]
  case call loc callee options arguments =>
    obtain _ | ⟨⟨hc, hdc⟩, _ | ⟨⟨ho, hdo⟩, _ | ⟨⟨ha, hda⟩, _ | _⟩⟩⟩ := hstanding
    have hcallee := hnode (by simp [children]) hc hdc
    have hoptions := hlist (by intro n hn; simp [children, hn]) ho hdo
    have harguments := hlist (by intro n hn; simp [children, hn]) ha hda
    simp [construct?, parts?, hrecord, hcallee, hoptions, harguments, Node.loc]
  case member loc object name =>
    obtain _ | ⟨⟨ho, hdo⟩, _ | ⟨⟨hn, -⟩, _ | _⟩⟩ := hstanding
    have hobject := hnode (by simp [children]) ho hdo
    simp [construct?, parts?, hrecord, hobject, text?_of_known hn, Node.loc]
  case identifier loc text | literal loc text =>
    obtain _ | ⟨⟨ht, -⟩, _ | _⟩ := hstanding
    simp [construct?, parts?, hrecord, text?_of_known ht, Node.loc]

theorem exists_jsonAt (node : Node) :
    ∃ kind written, node.toJson = jsonAt node.loc kind written := by
  cases node <;> exact ⟨_, _, rfl⟩

theorem exists_of_known_construct {kind : String} {parts : Json}
    (h : known .construct json = .object [(kind, parts)]) :
    ∃ value, json = .object [(kind, value)] ∧ known (.parts kind) value = parts := by
  obtain ⟨fields, rfl, hfields⟩ := exists_object_of_known (by simp) (by simp) h
  cases fields with
  | nil => cases hfields
  | cons field fields =>
    obtain ⟨name, value⟩ := field
    obtain ⟨hfirst, hrest⟩ := List.cons.inj hfields
    obtain ⟨rfl, hvalue⟩ := Prod.mk.inj hfirst
    cases fields with
    | nil => exact ⟨value, rfl, hvalue⟩
    | cons other fields => cases hrest

theorem ofJsonWithin?_of_known {tree : Node} (hf : tree.Fits) {fuel : Nat} {json : Json}
    (hd : json.depth ≤ fuel) (h : known .node json = tree.toJson) :
    ofJsonWithin? fuel json = some tree := by
  induction tree using induction_children generalizing fuel json with
  | step tree ih =>
    obtain ⟨kind, written, hj⟩ := exists_jsonAt tree
    obtain ⟨fields, rfl, hfields⟩ :=
      exists_object_of_known (by simp) (by simp) (h.trans hj)
    obtain ⟨values, hrecord, hstanding⟩ := record?_of_knownFields hfields (by simp) 2
    obtain _ | ⟨⟨hloc, -⟩, _ | ⟨⟨hkind, hdk⟩, _ | _⟩⟩ := hstanding
    obtain ⟨value, rfl, hvalue⟩ := exists_of_known_construct hkind
    obtain ⟨parts, rfl, hparts⟩ := exists_object_of_known (by simp) (by simp) hvalue
    have hlocation := location_of_known (hf tree (mem_preorder_self tree)) hloc
    simp only [Json.depth, Json.depthFields] at hd hdk
    cases fuel with
    | zero => omega
    | succ fuel =>
      -- The parts are at least one level deeper than the node, so less fuel is enough for them.
      have hread : ReadsBack (ofJsonWithin? fuel) fuel tree.children := by
        intro child hc json hdepth hjson
        refine ih child hc (fun n hn ↦ hf n ?_) hdepth hjson
        exact mem_preorder_trans hn (mem_preorder_of_mem_children hc)
      have hconstruct := construct?_of_known hj hparts (by omega) hread
      simp only [List.map_cons, List.map_nil] at hrecord
      simp [ofJsonWithin?, hrecord, hlocation, hconstruct]

theorem known_array {nodes : List Node} (h : ∀ n ∈ nodes, known .node n.toJson = n.toJson) :
    known .nodes (.array (toJsonAll nodes)) = .array (toJsonAll nodes) := by
  rw [known, knownItems_eq_map, toJsonAll_eq_map, List.map_map]
  exact congrArg Json.array (List.map_congr_left h)

theorem known_toJsonOption {body : Option Node}
    (h : ∀ n ∈ body.toList, known .node n.toJson = n.toJson) :
    known .node (toJsonOption body) = toJsonOption body := by
  cases body with
  | none => rfl
  | some node => exact h node (by simp)

def Kept (role : Role) (entry : String × Json) : Prop :=
  ∃ inner, role.field? entry.1 = some inner ∧ known inner entry.2 = entry.2

theorem knownFields_eq_self (h : written.Forall (Kept role)) :
    knownFields role written = written := by
  induction written with
  | nil => rfl
  | cons entry written ih =>
    obtain ⟨⟨inner, hrole, hknown⟩, hrest⟩ := (List.forall_cons _ _ _).mp h
    rw [knownFields, hrole]
    simp only [hknown, ih hrest]

theorem known_jsonAt {loc : Location} {kind : String} (h : written.Forall (Kept (.parts kind))) :
    known .node (jsonAt loc kind written) = jsonAt loc kind written := by
  have hparts : known .node (jsonAt loc kind written) =
      jsonAt loc kind (knownFields (.parts kind) written) := rfl
  rw [hparts, knownFields_eq_self h]

theorem kept_scalar (h : role.field? name = some .scalar) (value : Json) :
    Kept role (name, value) := ⟨.scalar, h, known_scalar value⟩

theorem known_toJson (tree : Node) : known .node tree.toJson = tree.toJson := by
  induction tree using induction_children with
  | step tree ih =>
    cases tree <;> (rw [toJson]; apply known_jsonAt)
    case sourceUnit loc nodes | block loc nodes => exact ⟨_, rfl, known_array ih⟩
    case pragma loc name text => exact ⟨kept_scalar rfl _, kept_scalar rfl _⟩
    case contract loc name nodes | modifierInvocation loc name nodes | other loc name nodes =>
      exact ⟨kept_scalar rfl _, _, rfl, known_array ih⟩
    case function loc header parameters modifiers body =>
      have hp := known_array fun n (hn : n ∈ parameters) ↦ ih n (by simp [children, hn])
      have hm := known_array fun n (hn : n ∈ modifiers) ↦ ih n (by simp [children, hn])
      have hb := known_toJsonOption fun n (hn : n ∈ body.toList) ↦ ih n (by simp_all [children])
      exact ⟨kept_scalar rfl _, kept_scalar rfl _, kept_scalar rfl _, ⟨_, rfl, hp⟩,
        ⟨_, rfl, hm⟩, _, rfl, hb⟩
    case modifierDefinition loc name body =>
      exact ⟨kept_scalar rfl _, _, rfl, known_toJsonOption ih⟩
    case declaration loc header initial =>
      exact ⟨kept_scalar rfl _, kept_scalar rfl _, kept_scalar rfl _, _, rfl,
        known_toJsonOption ih⟩
    case binary loc operator left right | assignment loc operator left right =>
      have hl := ih left (by simp [children])
      have hr := ih right (by simp [children])
      exact ⟨kept_scalar rfl _, ⟨_, rfl, hl⟩, _, rfl, hr⟩
    case call loc callee options arguments =>
      have hc := ih callee (by simp [children])
      have ho := known_array fun n (hn : n ∈ options) ↦ ih n (by simp [children, hn])
      have ha := known_array fun n (hn : n ∈ arguments) ↦ ih n (by simp [children, hn])
      exact ⟨⟨_, rfl, hc⟩, ⟨_, rfl, ho⟩, _, rfl, ha⟩
    case member loc object name =>
      exact ⟨⟨_, rfl, ih object (by simp [children])⟩, kept_scalar rfl _⟩
    case identifier loc text | literal loc text => exact kept_scalar rfl _

/-- A tree is read back from what it is written as, also with unknown fields in any of the
records. -/
theorem ofJson?_of_known (tree : Node) (h : tree.Fits) :
    ofJson? tree.toJson = some tree ∧
      ∀ json, known .node json = tree.toJson → ofJson? json = some tree := by
  have hread (json : Json) (hjson : known .node json = tree.toJson) : ofJson? json = some tree :=
    ofJsonWithin?_of_known h le_rfl hjson
  exact ⟨hread tree.toJson (known_toJson tree), hread⟩

def guardedFallback : Node :=
  .function ⟨1, 4⟩ ⟨none, .external, false⟩ [] [Build.modifier 1 "onlyOwner"] none

def guardedFallbackExtended : Json :=
  .object [("id", .nat 7),
    ("loc", .object [("line", .nat 1), ("end", .null), ("column", .nat 4)]),
    ("kind", .object [("FunctionDefinition", .object
      [("kind", .text "fallback"), ("name", .null), ("visibility", .text "external"),
        ("is_constructor", .bool false), ("parameters", .array []),
        ("modifiers", .array [.object
          [("loc", .object [("line", .nat 1), ("column", .nat 0), ("loc", .null)]),
            ("kind", .object [("ModifierInvocation", .object
              [("name", .text "onlyOwner"), ("arguments", .array []), ("options", .array [])])]),
            ("children", .array [.null])]]),
        ("body", .null), ("id", .null), ("id", .nat 8)])])]

theorem ofJson?_guardedFallbackExtended :
    guardedFallback.Fits ∧ known .node guardedFallbackExtended = guardedFallback.toJson ∧
      ofJson? guardedFallbackExtended = some guardedFallback := by
  have hfits : guardedFallback.Fits := by decide
  have hknown : known .node guardedFallbackExtended = guardedFallback.toJson := rfl
  exact ⟨hfits, hknown, (ofJson?_of_known guardedFallback hfits).2 _ hknown⟩

end Node

end ContractAudit
