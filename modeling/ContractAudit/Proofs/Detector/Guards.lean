import ContractAudit.Proofs.Audit
import ContractAudit.Proofs.Concrete.Callee
import ContractAudit.Proofs.Concrete.Origin
import ContractAudit.Proofs.Detector.AccessControl
import Mathlib

namespace ContractAudit

namespace AccessControl

/-- Every entry that is no modifier has a guard before it. -/
def BehindGuards (entries : List Node) : Prop :=
  ∀ before entry after, entries = before ++ entry :: after → entry.isModifierInvocation = false →
    ∃ m ∈ before, IsGuard m

def HasForeignEntry (entries : List Node) : Prop :=
  ∃ entry ∈ entries, entry.isModifierInvocation = false

variable {entries : List Node} {guard : Node}

theorem behindGuards_iff : BehindGuards entries ↔ ¬ ∃ entry, Stray entries entry := by
  constructor
  · rintro h ⟨entry, before, after, he, hentry, hnone⟩
    obtain ⟨m, hm, hguard⟩ := h before entry after he hentry
    exact hnone m hm hguard
  · intro h before entry after he hentry
    by_contra hnone
    apply h
    exact ⟨entry, before, after, he, hentry, fun m hm hguard ↦ hnone ⟨m, hm, hguard⟩⟩

theorem isModifierInvocation_of_isGuard (h : IsGuard guard) : guard.isModifierInvocation := by
  cases guard with
  | modifierInvocation => rfl
  | _ => cases h

theorem behindGuards_cons (h : IsGuard guard) (entries : List Node) :
    BehindGuards (guard :: entries) := by
  intro before entry after he hentry
  cases before with
  | nil =>
    obtain ⟨rfl, -⟩ := List.cons.inj he
    rw [isModifierInvocation_of_isGuard h] at hentry
    cases hentry
  | cons m before =>
    obtain ⟨rfl, -⟩ := List.cons.inj he
    exact ⟨guard, List.mem_cons_self, h⟩

theorem exists_guard_of_behindGuards (h : BehindGuards entries) (hs : HasForeignEntry entries) :
    ∃ m ∈ entries, IsGuard m := by
  obtain ⟨entry, hmem, hentry⟩ := hs
  obtain ⟨before, after, rfl⟩ := List.append_of_mem hmem
  obtain ⟨m, hm, hguard⟩ := h before entry after rfl hentry
  exact ⟨m, List.mem_append_left _ hm, hguard⟩

theorem exists_perm_stray (h : HasForeignEntry entries) :
    ∃ order, order.Perm entries ∧ ∃ entry, Stray order entry := by
  obtain ⟨entry, hmem, hentry⟩ := h
  obtain ⟨before, after, rfl⟩ := List.append_of_mem hmem
  refine ⟨entry :: (before ++ after), List.perm_middle.symm, entry, [], before ++ after, rfl, ?_⟩
  exact ⟨hentry, fun m hm ↦ absurd hm List.not_mem_nil⟩

theorem exists_perm_behindGuards_iff (h : HasForeignEntry entries) :
    (∃ order, order.Perm entries ∧ BehindGuards order) ↔ ∃ m ∈ entries, IsGuard m := by
  constructor
  · rintro ⟨order, hperm, hbehind⟩
    obtain ⟨entry, hmem, hentry⟩ := h
    have hs : HasForeignEntry order := ⟨entry, hperm.mem_iff.mpr hmem, hentry⟩
    obtain ⟨m, hm, hguard⟩ := exists_guard_of_behindGuards hbehind hs
    exact ⟨m, hperm.mem_iff.mp hm, hguard⟩
  · rintro ⟨m, hm, hguard⟩
    obtain ⟨before, after, rfl⟩ := List.append_of_mem hm
    exact ⟨m :: (before ++ after), List.perm_middle.symm, behindGuards_cons hguard _⟩

theorem exists_findingsIn_iff (nodes : List Node) :
    (∃ found, findingsIn nodes = .ok found) ↔ ∀ n ∈ nodes, ∃ answer, verdict n = .ok answer := by
  constructor
  · rintro ⟨found, h⟩
    induction nodes generalizing found with
    | nil => exact fun n hn ↦ absurd hn List.not_mem_nil
    | cons node nodes ih =>
      obtain ⟨first, rest, hfirst, hrest, -⟩ := both_eq_ok.mp h
      refine List.forall_mem_cons.mpr ⟨?_, ih rest hrest⟩
      cases hv : verdict node with
      | ok answer => exact ⟨answer, rfl⟩
      | error fault =>
        rw [hv] at hfirst
        cases hfirst
  · exact findingsIn_ok

theorem exists_detect_ok_iff (tree : Node) (source : String) :
    (∃ found, detect tree source = .ok found) ↔
      ∀ f ∈ candidates tree, BehindGuards f.modifiers := by
  rw [detect_eq_findingsIn, exists_findingsIn_iff]
  refine forall₂_congr fun f hf ↦ ?_
  rw [exists_ok_iff, ← malformed_iff_of_mem hf, behindGuards_iff, Malformed]

/-- The detector answers exactly if a guard stands before every entry that is no modifier. So it
faults if there is such an entry and no guard; if there are both, it depends on their order. -/
theorem detect_behindGuards (tree : Node) (source : String) :
    ((∃ found : List Finding, detect tree source = Except.ok found) ↔
      ∀ f ∈ candidates tree, BehindGuards f.modifiers) ∧
    (∀ f ∈ candidates tree, HasForeignEntry f.modifiers → (∀ m ∈ f.modifiers, ¬ IsGuard m) →
      ∃ fault : Fault, detect tree source = Except.error fault) ∧
    ∀ loc header parameters entries body,
      isCandidate (.function loc header parameters entries body) → HasForeignEntry entries →
      let check (order : List Node) : Except Fault (Option Finding) :=
        checkFunction (.function loc header parameters order body) header order
      (∃ order : List Node, order.Perm entries ∧
        ∃ fault : Fault, check order = Except.error fault) ∧
      ((∃ order : List Node, order.Perm entries ∧
        ∃ found : Option Finding, check order = Except.ok found) ↔ ∃ m ∈ entries, IsGuard m) := by
  refine ⟨exists_detect_ok_iff tree source, ?_, ?_⟩
  · intro f hf hs hnone
    by_contra hfault
    have hbehind := (exists_detect_ok_iff tree source).mp (exists_ok_iff.mpr hfault) f hf
    obtain ⟨m, hmem, hguard⟩ := exists_guard_of_behindGuards hbehind hs
    exact hnone m hmem hguard
  · intro loc header parameters entries body hc hs check
    have hcheck (order : List Node) :
        (∃ fault, check order = .error fault) ↔ ∃ entry, Stray order entry := by
      -- Whether a function is checked does not depend on its modifiers.
      have hcandidate : isCandidate (.function loc header parameters order body) := hc
      exact (malformed_iff hcandidate rfl).symm
    simp only [exists_ok_iff, hcheck, ← behindGuards_iff]
    exact ⟨exists_perm_stray hs, exists_perm_behindGuards_iff hs⟩

section

open Node.Build

def guardThenIdentifier : Node :=
  sourceUnit [contract 1 "C"
    [Node.Build.function 2 "f" .public [modifier 2 "onlyOwner", identifier 3 4 "x"] []]]

/-- The identifier in the modifier list is not noticed behind the guard. -/
theorem detect_guardThenIdentifier :
    (∃ f ∈ candidates guardThenIdentifier, HasForeignEntry f.modifiers) ∧
      detect guardThenIdentifier "" = Except.ok [] := by
  refine ⟨⟨_, List.mem_singleton.mpr rfl, identifier 3 4 "x", ?_, rfl⟩, rfl⟩
  exact List.mem_cons_of_mem _ List.mem_cons_self

end

theorem not_malformed_of_modifiersOnly {tree f : Node} (h : tree.ModifiersOnly)
    (hf : f ∈ candidates tree) : ¬ Malformed f := by
  rintro ⟨entry, before, after, hsplit, hentry, -⟩
  have hmem : entry ∈ f.modifiers := hsplit ▸ List.mem_append_right _ List.mem_cons_self
  have hnode := checked_subset_preorder tree (List.mem_of_mem_filter hf)
  rw [h f hnode entry hmem] at hentry
  cases hentry

end AccessControl

namespace Concrete.Tree

open AccessControl

section

variable {root tree f : Tree}

def invokedName (source : String) (invocation : Tree) : String :=
  match invocation.constructsOf "identifier" with
  | first :: _ => first.info.text source
  | [] => String.ofList (Text.trim ((invocation.info.text source).toList.takeWhile (· != '(')))

theorem modifierName_map (source : String) (tree : Tree) :
    modifierName source tree.info (tree.children.map (annotate source)) =
      tree.invokedName source := by
  have hfirst : (Concrete.constructs (tree.children.map (annotate source))).find?
      (·.info.kind == "identifier") =
        (tree.constructsOf "identifier").head?.map (annotate source) := by
    rw [← List.head?_filter, ← List.head?_map, ← constructsOf_map]
    rfl
  rw [modifierName, hfirst, invokedName]
  cases tree.constructsOf "identifier" <;> simp

theorem lower_modifierInvocation (source : String) (hk : tree.info.kind = "modifier_invocation") :
    tree.lower source = .modifierInvocation tree.info.loc (tree.invokedName source)
      ((tree.constructsOf "call_argument").map (lower source)) := by
  rw [lower_eq_lowerConstruct (by simp [hk, wrapperKinds])]
  simp only [lowerConstruct, lowerKind?, hk, lowerModifierInvocation, modifierName_map,
    constructsOf_map, lowerings_map]

theorem isGuard_lower_iff (source : String) (hk : tree.info.kind = "modifier_invocation") :
    IsGuard (tree.lower source) ↔ NamesGuard (tree.invokedName source) := by
  rw [lower_modifierInvocation source hk]
  rfl

theorem noGuard_lower_iff (source : String) (hk : f.info.kind ∈ functionKinds) :
    (∀ m ∈ (f.lower source).modifiers, ¬ IsGuard m) ↔
      ∀ m ∈ f.constructsOf "modifier_invocation", ¬ NamesGuard (m.invokedName source) := by
  have hmodifiers : (f.lower source).modifiers =
      (f.constructsOf "modifier_invocation").map (lower source) := by
    rw [lower_eq_lowerFunction hk]
    simp [lowerFunction, Node.modifiers]
  rw [hmodifiers, List.forall_mem_map]
  refine forall₂_congr fun m hm ↦ ?_
  rw [isGuard_lower_iff source (by simpa using List.of_mem_filter hm)]

/-- A function that a file holds on its own or in the body of one of its contracts. -/
inductive Declares (root : Tree) : Tree → Prop
  | free {f : Tree} (hr : root.info.kind = "source_file") (hf : f ∈ root.constructs)
      (hk : f.info.kind ∈ functionKinds) : Declares root f
  | member {contract body f : Tree} (hr : root.info.kind = "source_file")
      (hc : contract ∈ root.constructs) (hck : contract.info.kind ∈ contractKinds)
      (hb : contract.part? "body" = some body) (hf : f ∈ body.constructs)
      (hk : f.info.kind ∈ functionKinds) : Declares root f

theorem Declares.kind (h : root.Declares f) : f.info.kind ∈ functionKinds := by
  cases h <;> assumption

theorem lower_sourceFile (source : String) (hk : tree.info.kind = "source_file") :
    tree.lower source = .sourceUnit tree.info.loc (tree.constructs.map (lower source)) := by
  rw [lower_eq_lowerConstruct (by simp [hk, wrapperKinds])]
  simp only [lowerConstruct, lowerKind?, hk, constructs_map, lowerings_map]

theorem members_lower_contract {body : Tree} (source : String)
    (hk : tree.info.kind ∈ contractKinds) (hb : tree.part? "body" = some body) :
    members (tree.lower source) = body.constructs.map (lower source) := by
  have hlower : tree.lower source =
      lowerContract source tree.info (tree.children.map (annotate source)) := by
    simp only [contractKinds, List.mem_cons, List.not_mem_nil, or_false] at hk
    rw [lower_eq_lowerConstruct (by rcases hk with hk | hk | hk <;> simp [hk, wrapperKinds])]
    rcases hk with hk | hk | hk <;> simp only [lowerConstruct, lowerKind?, hk]
  rw [hlower, lowerContract, child?_map, hb]
  simp [members]

theorem Declares.mem_checked (h : root.Declares f) (source : String) :
    f.lower source ∈ checked (root.lower source) := by
  cases h with
  | free hr hf hk =>
    refine List.mem_flatMap.mpr ⟨_, Node.mem_preorder_self _, ?_⟩
    rw [lower_sourceFile source hr]
    exact List.mem_map_of_mem hf
  | @member contract body f hr hc hck hb hf hk =>
    refine List.mem_flatMap.mpr ⟨contract.lower source, ?_, ?_⟩
    · apply Node.mem_preorder_of_mem_children
      rw [lower_sourceFile source hr]
      exact List.mem_map_of_mem hc
    · rw [members_lower_contract source hck hb]
      exact List.mem_map_of_mem hf

theorem Declares.mem_unguarded_iff (h : root.Declares f) (source : String) :
    f.lower source ∈ (candidates (root.lower source)).filter Unguarded ↔
      isCandidate (f.lower source) ∧ (∃ n ∈ (f.lower source).preorder, n.isAssignment) ∧
        (∀ n ∈ (f.lower source).preorder, ¬ ChecksSender n) ∧
        ∀ m ∈ f.constructsOf "modifier_invocation", ¬ NamesGuard (m.invokedName source) := by
  rw [← noGuard_lower_iff source h.kind, List.mem_filter, candidates, List.mem_filter,
    decide_eq_true_iff]
  constructor
  · rintro ⟨⟨-, hc⟩, ha, hg, hn⟩
    exact ⟨hc, ha, hn, hg⟩
  · rintro ⟨hc, ha, hn, hg⟩
    exact ⟨⟨h.mem_checked source, hc⟩, ha, hg, hn⟩

/-- A function of a source without an error is reported if it assigns, any account can call it, it
does not check the sender, and no guard is named at the place that is read of its modifiers. So a
guard that comes first in a path counts, and one that comes later does not. -/
theorem parse_reports_iff (hd : root.Declares f) (he : root.info.hasError = false)
    (source : String) :
    ∃ (lowered : Node) (found : List Finding), root.parse source = Except.ok lowered ∧
      detect lowered source = Except.ok found ∧
      List.Forall₂ Reports ((candidates lowered).filter Unguarded) found ∧
      (f.lower source ∈ (candidates lowered).filter Unguarded ↔
        isCandidate (f.lower source) ∧ (∃ n ∈ (f.lower source).preorder, n.isAssignment) ∧
          (∀ n ∈ (f.lower source).preorder, ¬ ChecksSender n) ∧
          ∀ m ∈ f.constructsOf "modifier_invocation", ¬ NamesGuard (m.invokedName source)) ∧
      ∀ m ∈ f.constructsOf "modifier_invocation", ∀ first rest,
        m.constructsOf "identifier" = first :: rest → NamesGuard (first.info.text source) →
          f.lower source ∉ (candidates lowered).filter Unguarded := by
  have hwell (c : Node) (hc : c ∈ candidates (root.lower source)) : ¬ Malformed c :=
    not_malformed_of_modifiersOnly (modifiersOnly_lower source root) hc
  obtain ⟨found, hfound, hreports⟩ := detect_eq_ok hwell source
  refine ⟨root.lower source, found, by simp [Tree.parse, he], hfound, hreports,
    hd.mem_unguarded_iff source, ?_⟩
  intro m hm first rest hpath hguard hreported
  obtain ⟨-, -, -, hnone⟩ := (hd.mem_unguarded_iff source).mp hreported
  apply hnone m hm
  rwa [invokedName, hpath]

end

namespace Qualified

open Build

-- The parts of `contract C { function f() public A.B.onlyAdmin(x) { x = 1; } }`.

def invocation : Tree :=
  construct "modifier_invocation" none 33 49
    [identifier none 33 34, token "." none 34, identifier none 35 36, token "." none 36,
      identifier none 37 46, token "(" none 46,
      construct "call_argument" none 47 48
        [construct "expression" none 47 48 [identifier none 47 48]],
      token ")" none 48]

def assignment : Tree :=
  construct "assignment_expression" none 52 57
    [construct "expression" (some "left") 52 53 [identifier none 52 53], token "=" none 54,
      construct "expression" (some "right") 56 57 [construct "number_literal" none 56 57 []]]

def function : Tree :=
  construct "function_definition" none 13 60
    [token "function" none 13, identifier (some "name") 22 23, token "(" none 23, token ")" none 24,
      construct "visibility" none 26 32 [token "public" none 26], invocation,
      construct "function_body" (some "body") 50 60
        [token "\x7b" none 50,
          construct "statement" none 52 58
            [construct "expression_statement" none 52 58
              [construct "expression" none 52 57 [assignment], token ";" none 57]],
          token "\x7d" none 59]]

def body : Tree :=
  construct "contract_body" (some "body") 11 62
    [token "\x7b" none 11, function, token "\x7d" none 61]

def contract : Tree :=
  construct "contract_declaration" none 0 62
    [token "contract" none 0, identifier (some "name") 9 10, body]

def file : Tree := construct "source_file" none 0 62 [contract]

def source : String :=
  "contract C \x7b function f() public A.B.onlyAdmin(x) \x7b x = 1; \x7d \x7d"

theorem declares_function : file.Declares function :=
  .member rfl (List.mem_singleton.mpr rfl) (by decide) rfl (List.mem_singleton.mpr rfl) (by decide)

theorem unguarded_function : Unguarded (function.lower source) := by decide

theorem parse_reports_iff_function : file.Declares function ∧ file.info.hasError = false ∧
    ∃ (lowered : Node) (found : List Finding), file.parse source = Except.ok lowered ∧
      detect lowered source = Except.ok found ∧
      List.Forall₂ Reports ((candidates lowered).filter Unguarded) found ∧
      function.lower source ∈ (candidates lowered).filter Unguarded := by
  obtain ⟨lowered, found, hparse, hfound, hreports, hiff, -⟩ :=
    parse_reports_iff declares_function rfl source
  refine ⟨declares_function, rfl, lowered, found, hparse, hfound, hreports, hiff.mpr ?_⟩
  exact ⟨by decide, unguarded_function.assigns, unguarded_function.noCheck, by decide⟩

/-- The guard at the end of the path is there, and the function is reported all the same. -/
theorem reported_with_guard : file.Declares function ∧ file.info.hasError = false ∧
    (∃ m ∈ function.constructsOf "modifier_invocation", ∃ component ∈ m.constructsOf "identifier",
      NamesGuard (component.info.text source)) ∧
    function.lower source ∈ (candidates (file.lower source)).filter Unguarded ∧
    detect (file.lower source) source = Except.ok [finding 1 "f"] := by
  refine ⟨declares_function, rfl, by decide, ?_, by decide⟩
  have hcandidate : function.lower source ∈ candidates (file.lower source) :=
    List.mem_filter.mpr ⟨declares_function.mem_checked source, by decide⟩
  exact List.mem_filter.mpr ⟨hcandidate, decide_eq_true unguarded_function⟩

end Qualified

end Concrete.Tree

end ContractAudit
