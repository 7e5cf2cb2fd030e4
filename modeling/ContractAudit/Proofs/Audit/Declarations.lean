import Mathlib
import ContractAudit.Node.Build
import ContractAudit.Proofs.Detector.Findings
import ContractAudit.Proofs.Engine

namespace ContractAudit

namespace Node

mutual

/-- The tree in which each variable declaration states what `f` makes of its header. -/
@[simp]
def mapDeclared (f : DeclarationHeader → DeclarationHeader) : Node → Node
  | .sourceUnit loc children => .sourceUnit loc (mapDeclaredAll f children)
  | .pragma loc name value => .pragma loc name value
  | .contract loc name members => .contract loc name (mapDeclaredAll f members)
  | .function loc header parameters modifiers body =>
    .function loc header (mapDeclaredAll f parameters) (mapDeclaredAll f modifiers)
      (mapDeclaredOption f body)
  | .modifierDefinition loc name body => .modifierDefinition loc name (mapDeclaredOption f body)
  | .modifierInvocation loc name arguments =>
    .modifierInvocation loc name (mapDeclaredAll f arguments)
  | .declaration loc header initial => .declaration loc (f header) (mapDeclaredOption f initial)
  | .block loc statements => .block loc (mapDeclaredAll f statements)
  | .binary loc operator left right =>
    .binary loc operator (mapDeclared f left) (mapDeclared f right)
  | .assignment loc operator left right =>
    .assignment loc operator (mapDeclared f left) (mapDeclared f right)
  | .call loc callee options arguments =>
    .call loc (mapDeclared f callee) (mapDeclaredAll f options) (mapDeclaredAll f arguments)
  | .member loc object name => .member loc (mapDeclared f object) name
  | .identifier loc name => .identifier loc name
  | .literal loc value => .literal loc value
  | .other loc kind children => .other loc kind (mapDeclaredAll f children)

def mapDeclaredAll (f : DeclarationHeader → DeclarationHeader) : List Node → List Node
  | [] => []
  | node :: nodes => mapDeclared f node :: mapDeclaredAll f nodes

def mapDeclaredOption (f : DeclarationHeader → DeclarationHeader) : Option Node → Option Node
  | none => none
  | some node => some (mapDeclared f node)

end

/-- The trees differ at most in what their variable declarations state, each at its own place. -/
def Redeclared (tree other : Node) : Prop :=
  tree.mapDeclared (fun _ ↦ default) = other.mapDeclared fun _ ↦ default

/-- The tree in which all declared variables have the given name. -/
def declaring (name : String) (tree : Node) : Node :=
  tree.mapDeclared fun header ↦ { header with name }

def isDeclaration : Node → Bool
  | .declaration .. => true
  | _ => false

variable {f : DeclarationHeader → DeclarationHeader}

@[simp]
theorem mapDeclaredAll_eq_map (nodes : List Node) :
    mapDeclaredAll f nodes = nodes.map (mapDeclared f) := by
  induction nodes with
  | nil => rfl
  | cons node nodes ih => rw [mapDeclaredAll, ih, List.map_cons]

@[simp]
theorem mapDeclaredOption_eq_map (node : Option Node) :
    mapDeclaredOption f node = node.map (mapDeclared f) := by
  cases node <;> rfl

theorem children_mapDeclared (node : Node) :
    (node.mapDeclared f).children = node.children.map (mapDeclared f) := by
  cases node <;> simp [children, Option.toList_map]

theorem mapDeclared_mapDeclared (g : DeclarationHeader → DeclarationHeader) (node : Node) :
    (node.mapDeclared f).mapDeclared g = node.mapDeclared (g ∘ f) := by
  induction node using induction_children with
  | step node ih =>
    cases node with
    | function loc header parameters modifiers body =>
      cases body <;> simp_all [children]
    | modifierDefinition loc name body => cases body <;> simp_all [children]
    | declaration loc header initial => cases initial <;> simp_all [children]
    | _ => simp_all [children]

theorem redeclared_mapDeclared (tree : Node) : Redeclared tree (tree.mapDeclared f) := by
  rw [Redeclared, mapDeclared_mapDeclared]
  rfl

@[simp]
theorem loc_mapDeclared (node : Node) : (node.mapDeclared f).loc = node.loc := by
  cases node <;> rfl

@[simp]
theorem line_mapDeclared (node : Node) : (node.mapDeclared f).line = node.line :=
  congrArg Location.line node.loc_mapDeclared

@[simp]
theorem kindName_mapDeclared (node : Node) : (node.mapDeclared f).kindName = node.kindName := by
  cases node <;> rfl

@[simp]
theorem header?_mapDeclared (node : Node) : (node.mapDeclared f).header? = node.header? := by
  cases node <;> rfl

@[simp]
theorem identifierName?_mapDeclared (node : Node) :
    (node.mapDeclared f).identifierName? = node.identifierName? := by
  cases node <;> rfl

@[simp]
theorem memberName?_mapDeclared (node : Node) :
    (node.mapDeclared f).memberName? = node.memberName? := by
  cases node <;> rfl

@[simp]
theorem isMsgSender_mapDeclared (node : Node) :
    (node.mapDeclared f).isMsgSender = node.isMsgSender := by
  cases node <;> simp [isMsgSender]

theorem filterMap_preorder_mapDeclared {α : Type} {pick : Node → Option α}
    (h : ∀ n : Node, pick (n.mapDeclared f) = pick n) (tree : Node) :
    (tree.mapDeclared f).preorder.filterMap pick = tree.preorder.filterMap pick := by
  rw [preorder_map children_mapDeclared, List.filterMap_map]
  exact List.filterMap_congr fun n _ ↦ h n

end Node

variable {f : DeclarationHeader → DeclarationHeader}

namespace Reentrancy

theorem stateChanges_mapDeclared (node : Node) :
    stateChanges (node.mapDeclared f) = stateChanges node := by
  rw [stateChanges, stateChanges, Visitor.visit_map Node.children_mapDeclared fun n s ↦ ?_]
  cases n with
  | call loc callee options arguments =>
    have hcallee : isExternalCallee (callee.mapDeclared f) = isExternalCallee callee := by
      rw [isExternalCallee, isExternalCallee, Node.memberName?_mapDeclared]
    simp only [Node.mapDeclared, Visitor.dispatch, scanner, hcallee]
  | _ => rfl

theorem finding?_mapDeclared (node : Node) : finding? (node.mapDeclared f) = finding? node := by
  simp only [finding?, Node.header?_mapDeclared, stateChanges_mapDeclared, Node.line_mapDeclared]

theorem detect_mapDeclared (tree : Node) (source : String) :
    detect (tree.mapDeclared f) source = detect tree source := by
  rw [detect_eq, detect_eq, Node.filterMap_preorder_mapDeclared finding?_mapDeclared]

end Reentrancy

namespace Overflow

theorem finding?_mapDeclared (node : Node) : finding? (node.mapDeclared f) = finding? node := by
  cases node <;> rfl

theorem detect_mapDeclared (tree : Node) (source : String) :
    detect (tree.mapDeclared f) source = detect tree source := by
  rw [detect_eq, detect_eq, Node.filterMap_preorder_mapDeclared finding?_mapDeclared]

end Overflow

namespace UncheckedCall

theorem finding?_mapDeclared (node : Node) : finding? (node.mapDeclared f) = finding? node := by
  cases node <;> simp [finding?, Node.line, Node.loc]

theorem detect_mapDeclared (tree : Node) (source : String) :
    detect (tree.mapDeclared f) source = detect tree source := by
  rw [detect_eq, detect_eq, Node.filterMap_preorder_mapDeclared finding?_mapDeclared]

end UncheckedCall

namespace AccessControl

theorem containsAssignment_mapDeclared (node : Node) :
    containsAssignment (node.mapDeclared f) = containsAssignment node := by
  refine Visitor.visit_map Node.children_mapDeclared (fun n found ↦ ?_) node false
  cases n <;> rfl

theorem comparesSender_mapDeclared (node : Node) :
    comparesSender (node.mapDeclared f) = comparesSender node := by
  cases node <;> simp [comparesSender]

theorem hasSenderCheck_mapDeclared (node : Node) :
    hasSenderCheck (node.mapDeclared f) = hasSenderCheck node := by
  refine Visitor.visit_map Node.children_mapDeclared (fun n found ↦ ?_) node false
  cases n with
  | call loc callee options arguments =>
    cases arguments <;>
      simp [Visitor.dispatch, senderCheckFinder, comparesSender_mapDeclared]
  | _ => rfl

theorem hasGuardModifier_mapDeclared (name : String) (modifiers : List Node) :
    hasGuardModifier name (modifiers.map (Node.mapDeclared f)) =
      hasGuardModifier name modifiers := by
  induction modifiers with
  | nil => rfl
  | cons modifier modifiers ih =>
    cases modifier <;>
      simp [hasGuardModifier, ih, Node.kindName, Node.line, Node.loc]

theorem verdict_mapDeclared (node : Node) : verdict (node.mapDeclared f) = verdict node := by
  cases node with
  | function loc header parameters modifiers body =>
    -- The function is walked as a whole, its modifiers are read one by one.
    change checkFunction ((Node.function loc header parameters modifiers body).mapDeclared f) header
      (Node.mapDeclaredAll f modifiers) = _
    rw [checkFunction, Node.mapDeclaredAll_eq_map, hasGuardModifier_mapDeclared,
      containsAssignment_mapDeclared, hasSenderCheck_mapDeclared, Node.line_mapDeclared]
    rfl
  | _ => rfl

theorem findingsIn_mapDeclared (nodes : List Node) :
    findingsIn (nodes.map (Node.mapDeclared f)) = findingsIn nodes := by
  induction nodes with
  | nil => rfl
  | cons node nodes ih => rw [List.map_cons, findingsIn, findingsIn, verdict_mapDeclared, ih]

theorem members_mapDeclared (node : Node) :
    members (node.mapDeclared f) = (members node).map (Node.mapDeclared f) := by
  cases node <;> simp [members]

theorem detect_mapDeclared (tree : Node) (source : String) :
    detect (tree.mapDeclared f) source = detect tree source := by
  rw [detect_eq, detect_eq, checked, checked, Node.preorder_map Node.children_mapDeclared,
    List.flatMap_map]
  simp only [members_mapDeclared]
  rw [← List.map_flatMap, findingsIn_mapDeclared]

def contract? : Node → Option (String × List Node)
  | .contract _ name members => some (name, members)
  | _ => none

def contracts (tree : Node) : List (String × List Node) := tree.preorder.filterMap contract?

theorem facts_checkMember (survey : Survey) (member : Node) :
    (checkMember survey member).facts = survey.facts := by
  unfold checkMember
  split
  · split <;> rfl
  · rfl

theorem facts_foldl_checkMember (members : List Node) (survey : Survey) :
    (members.foldl checkMember survey).facts = survey.facts := by
  induction members generalizing survey with
  | nil => rfl
  | cons member members ih => rw [List.foldl_cons, ih, facts_checkMember]

theorem contractFacts_eq (tree : Node) :
    contractFacts tree = (contracts tree).map fun c ↦ ContractFacts.ofMembers c.1 c.2 := by
  rw [contractFacts, survey, contracts, List.map_filterMap]
  refine Visitor.reverse_view_visit_eq_filterMap Survey.facts (fun n survey ↦ ?_) tree {}
  cases n with
  | sourceUnit loc children => exact facts_foldl_checkMember children survey
  | contract loc name members => exact facts_foldl_checkMember members _
  | _ => rfl

theorem contracts_mapDeclared (tree : Node) :
    contracts (tree.mapDeclared f) =
      (contracts tree).map fun c ↦ (c.1, c.2.map (Node.mapDeclared f)) := by
  rw [contracts, contracts, Node.preorder_map Node.children_mapDeclared, List.filterMap_map,
    List.map_filterMap]
  refine List.filterMap_congr fun n _ ↦ ?_
  cases n <;> simp [contract?]

theorem declaresOwner_declaring (name : String) (node : Node) :
    declaresOwner (node.declaring name) = (node.isDeclaration && ownerNames.contains name) := by
  cases node <;> rfl

/-- A contract that declares a variable has an owner or not as the variable is named. -/
theorem contractFacts_declaring (name : String) (tree : Node) :
    contractFacts (tree.declaring name) = (contracts tree).map fun c ↦
      ⟨c.1, c.2.any Node.isDeclaration && ownerNames.contains name⟩ := by
  have hany (members : List Node) : (members.map (Node.declaring name)).any declaresOwner =
      (members.any Node.isDeclaration && ownerNames.contains name) := by
    rw [List.any_map]
    simp only [Function.comp_def, declaresOwner_declaring]
    cases ownerNames.contains name <;> simp
  rw [contractFacts_eq, Node.declaring, contracts_mapDeclared, List.map_map]
  exact List.map_congr_left fun c _ ↦ congrArg (ContractFacts.mk c.1) (hany c.2)

end AccessControl

theorem Registry.builtin_detect_mapDeclared {d : Detector} (hd : d ∈ builtin.detectors)
    (tree : Node) (source : String) :
    d.detect (tree.mapDeclared f) source = d.detect tree source := by
  rcases mem_builtin_detectors.mp hd with rfl | rfl | rfl | rfl
  · exact Reentrancy.detect_mapDeclared tree source
  · exact Overflow.detect_mapDeclared tree source
  · exact UncheckedCall.detect_mapDeclared tree source
  · exact AccessControl.detect_mapDeclared tree source

def AuditRun.redated (run : AuditRun) (moment : Timestamp) : AuditRun :=
  { run with report := { run.report with timestamp := moment } }

namespace Engine

theorem runDetectors_congr {tree other : Node} {source : String} (isolate : Bool)
    {detectors : List Detector}
    (h : ∀ d ∈ detectors, d.detect other source = d.detect tree source) :
    runDetectors isolate other source detectors = runDetectors isolate tree source detectors := by
  induction detectors with
  | nil => rfl
  | cons d ds ih =>
    rw [runDetectors, runDetectors, h d List.mem_cons_self,
      ih fun e he ↦ h e (List.mem_cons_of_mem _ he)]

/-- The moment of an audit shows in the timestamp of the report only. -/
theorem audit_eq_redated (engine : Engine) (now later : Timestamp) (path : String) (tree : Node)
    (source : String) :
    engine.audit later path tree source =
      ((engine.audit now path tree source).1,
        (engine.audit now path tree source).2.map (·.redated later)) := by
  rw [audit, audit]
  obtain ⟨events, outcome⟩ := engine.run tree source
  cases outcome <;> rfl

/-- What the variable declarations of a tree state does not matter to any detector, and so not to
the audit. In particular the facts about contracts follow the names of the variables, and the
detector that collects these facts answers as before. -/
theorem audit_redeclared {tree other : Node} (h : Node.Redeclared tree other) (source : String) :
    (∀ d ∈ Registry.builtin.detectors, d.detect other source = d.detect tree source) ∧
    (∀ (config : Config) (now later : Timestamp) (path : String),
      let engine : Engine := ⟨.builtin, config⟩
      engine.run other source = engine.run tree source ∧
      engine.audit later path other source =
        ((engine.audit now path tree source).1,
          (engine.audit now path tree source).2.map (·.redated later))) ∧
    ∀ name : String, Node.Redeclared tree (tree.declaring name) ∧
      AccessControl.detect (tree.declaring name) source = AccessControl.detect tree source ∧
      AccessControl.contractFacts (tree.declaring name) =
        (AccessControl.contracts tree).map fun c ↦
          ⟨c.1, c.2.any Node.isDeclaration && AccessControl.ownerNames.contains name⟩ := by
  have hdetect (d : Detector) (hd : d ∈ Registry.builtin.detectors) :
      d.detect other source = d.detect tree source := by
    -- Both trees answer as the one that is left without what their declarations state.
    rw [← Registry.builtin_detect_mapDeclared hd, ← h, Registry.builtin_detect_mapDeclared hd]
  refine ⟨hdetect, ?_, ?_⟩
  · intro config now later path engine
    have hrun : engine.run other source = engine.run tree source :=
      runDetectors_congr _ fun d hd ↦ hdetect d (List.mem_of_mem_filter hd)
    refine ⟨hrun, ?_⟩
    rw [← audit_eq_redated, audit, audit, hrun]
  · intro name
    exact ⟨Node.redeclared_mapDeclared tree, AccessControl.detect_mapDeclared tree source,
      AccessControl.contractFacts_declaring name tree⟩

open Node.Build in
def vault (stateName localName : String) : Node :=
  sourceUnit [contract 1 "Vault" [stateVariable 2 "address" stateName,
    function 4 "withdraw" .public []
      [.declaration ⟨5, 8⟩ ⟨localName, none, false⟩ (some (memberCall 5 22 "to" "send" [])),
        assignment 6 8 "-=" (identifier 6 8 "balance") (literal 6 19 "1")]]]

theorem audit_redeclared_vault :
    let owned := vault "owner" "sent"
    let renamed := vault "keeper" "_owner"
    Node.Redeclared owned renamed ∧
    AccessControl.contractFacts owned = [⟨"Vault", true⟩] ∧
    AccessControl.contractFacts renamed = [⟨"Vault", false⟩] ∧
    (∀ d ∈ Registry.builtin.detectors, d.detect renamed "" = d.detect owned "") ∧
    ∃ found : List Finding, AccessControl.detector.detect owned "" = Except.ok found ∧
      found.map (·.function) = [some "withdraw"] :=
  have h : Node.Redeclared (vault "owner" "sent") (vault "keeper" "_owner") := rfl
  ⟨h, rfl, rfl, (audit_redeclared h "").1, _, rfl, rfl⟩

end Engine

end ContractAudit
