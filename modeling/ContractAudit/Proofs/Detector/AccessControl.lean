import ContractAudit.Node.Build
import ContractAudit.Proofs.Detector.Builtin
import ContractAudit.Proofs.Text.Split

namespace ContractAudit

namespace AccessControl

def isCandidate : Node → Bool
  | .function _ header _ _ _ =>
    !header.isConstructor && header.visibility ∉ [Visibility.internal, Visibility.private]
  | _ => false

/-- The functions to check: those of the file and of each contract, in the order of the tree. -/
def candidates (tree : Node) : List Node := (checked tree).filter isCandidate

/-- A text with the name of a guard in it. -/
def NamesGuard (text : String) : Prop :=
  ∃ guard ∈ ["onlyOwner", "onlyAdmin", "onlyRole"], guard.toList <:+: text.toList

def IsGuard : Node → Prop
  | .modifierInvocation _ name _ => NamesGuard name
  | _ => False

/-- An entry of a modifier list that is no modifier and has no guard before it. -/
def Stray (entries : List Node) (entry : Node) : Prop :=
  ∃ before after, entries = before ++ entry :: after ∧ entry.isModifierInvocation = false ∧
    ∀ m ∈ before, ¬ IsGuard m

def FirstStray (entries : List Node) (entry : Node) : Prop :=
  ∃ before after, entries = before ++ entry :: after ∧ entry.isModifierInvocation = false ∧
    (∀ m ∈ before, ¬ IsGuard m) ∧ ∀ e, ¬ Stray before e

def Malformed (function : Node) : Prop := ∃ entry, Stray function.modifiers entry

inductive IsSender : Node → Prop
  | intro (loc inner : Location) : IsSender (.member loc (.identifier inner "msg") "sender")

/-- A call of `require` whose first argument compares `msg.sender`. -/
inductive ChecksSender : Node → Prop
  | intro (loc name place : Location) (options rest : List Node) {operator : String}
      {left right : Node} (ho : operator ∈ ["==", "!="]) (hs : IsSender left ∨ IsSender right) :
      ChecksSender (.call loc (.identifier name "require") options
        (.binary place operator left right :: rest))

structure Unguarded (function : Node) : Prop where
  assigns : ∃ n ∈ function.preorder, n.isAssignment
  noGuard : ∀ m ∈ function.modifiers, ¬ IsGuard m
  noCheck : ∀ n ∈ function.preorder, ¬ ChecksSender n

/-- What a finding says of a function. -/
structure Reports (function : Node) (f : Finding) : Prop where
  detector : f.detector = .accessControl
  severity : f.severity = .high
  line : f.line = function.line
  name : f.function = function.header?.map FunctionHeader.displayName

theorem containsAssignment_iff (function : Node) :
    containsAssignment function ↔ ∃ n ∈ function.preorder, n.isAssignment := by
  rw [containsAssignment, Visitor.visit_eq_any (p := Node.isAssignment), List.any_eq_true]
  intro n found
  cases n with
  | assignment => exact (Bool.or_true found).symm
  | _ => exact (Bool.or_false found).symm

theorem isMsgSender_iff (node : Node) : node.isMsgSender ↔ IsSender node := by
  constructor
  · intro h
    cases node with
    | member loc object name =>
      cases object with
      | identifier inner base =>
        simp only [Node.isMsgSender, Node.identifierName?, Bool.and_eq_true, beq_iff_eq,
          Option.some.injEq] at h
        obtain ⟨rfl, rfl⟩ := h
        exact .intro loc inner
      | _ => simp [Node.isMsgSender, Node.identifierName?] at h
    | _ => cases h
  · rintro ⟨loc, inner⟩
    rfl

def checksSender : Node → Bool
  | .call _ callee _ arguments =>
    callee.identifierName? == some "require" && arguments.head?.any comparesSender
  | _ => false

theorem checksSender_iff (node : Node) : checksSender node ↔ ChecksSender node := by
  constructor
  · intro h
    cases node with
    | call loc callee options arguments =>
      simp only [checksSender, Bool.and_eq_true, beq_iff_eq, Option.any_eq_true] at h
      obtain ⟨hname, argument, hfirst, hcompares⟩ := h
      obtain ⟨rest, rfl⟩ := List.head?_eq_some_iff.mp hfirst
      cases callee with
      | identifier name text =>
        obtain rfl := Option.some.inj hname
        cases argument with
        | binary place operator left right =>
          simp only [comparesSender, Bool.and_eq_true, Bool.or_eq_true, beq_iff_eq,
            isMsgSender_iff] at hcompares
          exact .intro loc name place options rest (by simpa using hcompares.1) hcompares.2
        | _ => cases hcompares
      | _ => cases hname
    | _ => cases h
  · rintro ⟨loc, name, place, options, rest, ho, hs⟩
    simp only [List.mem_cons, List.not_mem_nil, or_false] at ho
    simp [checksSender, comparesSender, Node.identifierName?, isMsgSender_iff, ho, hs]

theorem hasSenderCheck_iff (function : Node) :
    hasSenderCheck function ↔ ∃ n ∈ function.preorder, ChecksSender n := by
  rw [hasSenderCheck, Visitor.visit_eq_any (p := checksSender), List.any_eq_true]
  · simp only [checksSender_iff]
  · intro n found
    cases n with
    | call => rfl
    | _ => exact (Bool.or_false found).symm

theorem isGuardName_iff (text : String) : isGuardName text ↔ NamesGuard text := by
  simp only [isGuardName, guardNames, List.any_eq_true, Text.holds_iff, NamesGuard]

instance : DecidablePred NamesGuard := fun text ↦ decidable_of_iff _ (isGuardName_iff text)

def isGuard : Node → Bool
  | .modifierInvocation _ name _ => isGuardName name
  | _ => false

theorem isGuard_iff (m : Node) : isGuard m ↔ IsGuard m := by
  cases m with
  | modifierInvocation loc name arguments => exact isGuardName_iff name
  | _ => simp [isGuard, IsGuard]

variable {entries : List Node} {entry m : Node}

theorem stray_cons : Stray (m :: entries) entry ↔
    m.isModifierInvocation = false ∧ entry = m ∨ ¬ IsGuard m ∧ Stray entries entry := by
  constructor
  · rintro ⟨before, after, he, hentry, hguard⟩
    cases before with
    | nil =>
      obtain ⟨rfl, -⟩ := List.cons.inj he
      exact .inl ⟨hentry, rfl⟩
    | cons n before =>
      obtain ⟨rfl, rfl⟩ := List.cons.inj he
      obtain ⟨hn, hbefore⟩ := List.forall_mem_cons.mp hguard
      exact .inr ⟨hn, before, after, rfl, hentry, hbefore⟩
  · rintro (⟨hm, rfl⟩ | ⟨hm, before, after, rfl, hentry, hguard⟩)
    · exact ⟨[], entries, rfl, hm, fun _ h ↦ absurd h List.not_mem_nil⟩
    · exact ⟨m :: before, after, rfl, hentry, List.forall_mem_cons.mpr ⟨hm, hguard⟩⟩

theorem firstStray_iff : FirstStray entries entry ↔
    ∃ before after, entries = before ++ entry :: after ∧ entry.isModifierInvocation = false ∧
      ∀ m ∈ before, m.isModifierInvocation ∧ ¬ IsGuard m := by
  constructor
  · rintro ⟨before, after, he, hentry, hguard, hfirst⟩
    refine ⟨before, after, he, hentry, fun m hm ↦ ⟨?_, hguard m hm⟩⟩
    -- An entry in front that is no modifier would itself be stray.
    by_contra hmodifier
    obtain ⟨front, back, rfl⟩ := List.append_of_mem hm
    refine hfirst m ⟨front, back, rfl, by simpa using hmodifier, fun n hn ↦ ?_⟩
    exact hguard n (List.mem_append_left _ hn)
  · rintro ⟨before, after, he, hentry, hall⟩
    refine ⟨before, after, he, hentry, fun m hm ↦ (hall m hm).2, ?_⟩
    rintro e ⟨front, back, rfl, hmodifier, -⟩
    have hm := (hall e (List.mem_append_right _ List.mem_cons_self)).1
    rw [hmodifier] at hm
    cases hm

theorem firstStray_cons : FirstStray (m :: entries) entry ↔
    m.isModifierInvocation = false ∧ entry = m ∨
      m.isModifierInvocation ∧ ¬ IsGuard m ∧ FirstStray entries entry := by
  simp only [firstStray_iff]
  constructor
  · rintro ⟨before, after, he, hentry, hall⟩
    cases before with
    | nil =>
      obtain ⟨rfl, -⟩ := List.cons.inj he
      exact .inl ⟨hentry, rfl⟩
    | cons n before =>
      obtain ⟨rfl, rfl⟩ := List.cons.inj he
      obtain ⟨⟨hn, hg⟩, hbefore⟩ := List.forall_mem_cons.mp hall
      exact .inr ⟨hn, hg, before, after, rfl, hentry, hbefore⟩
  · rintro (⟨hm, rfl⟩ | ⟨hm, hg, before, after, rfl, hentry, hall⟩)
    · exact ⟨[], entries, rfl, hm, fun _ h ↦ absurd h List.not_mem_nil⟩
    · exact ⟨m :: before, after, rfl, hentry, List.forall_mem_cons.mpr ⟨⟨hm, hg⟩, hall⟩⟩

theorem exists_firstStray_iff : (∃ e, FirstStray entries e) ↔ ∃ e, Stray entries e := by
  constructor
  · rintro ⟨e, before, after, he, hentry, hguard, -⟩
    exact ⟨e, before, after, he, hentry, hguard⟩
  · rintro ⟨e, h⟩
    induction entries with
    | nil =>
      obtain ⟨before, after, he, -⟩ := h
      simp at he
    | cons m entries ih =>
      -- An entry that is no modifier is the first stray one, whatever follows it.
      cases hm : m.isModifierInvocation with
      | false => exact ⟨m, firstStray_cons.mpr (.inl ⟨hm, rfl⟩)⟩
      | true =>
        rcases stray_cons.mp h with ⟨hstray, -⟩ | ⟨hg, h⟩
        · rw [hm] at hstray
          cases hstray
        · obtain ⟨first, hfirst⟩ := ih h
          exact ⟨first, firstStray_cons.mpr (.inr ⟨hm, hg, hfirst⟩)⟩

def strayFault (functionName : String) (entry : Node) : Fault :=
  ⟨entry.kindName, entry.line, "modifier list of " ++ functionName ++ " holds a non-modifier node"⟩

theorem hasGuardModifier_cons (functionName : String) (m : Node) (entries : List Node) :
    hasGuardModifier functionName (m :: entries) =
      if m.isModifierInvocation then
        if isGuard m then .ok true else hasGuardModifier functionName entries
      else .error (strayFault functionName m) := by
  cases m <;> rfl

theorem hasGuardModifier_eq_error (functionName : String) (entries : List Node) (fault : Fault) :
    hasGuardModifier functionName entries = .error fault ↔
      ∃ entry, FirstStray entries entry ∧ fault = strayFault functionName entry := by
  induction entries with
  | nil => simp [hasGuardModifier, FirstStray]
  | cons m entries ih =>
    rw [hasGuardModifier_cons]
    cases hm : m.isModifierInvocation with
    | false => simp [firstStray_cons, hm, eq_comm]
    | true =>
      by_cases hg : IsGuard m
      · simp [firstStray_cons, isGuard_iff, hm, hg]
      · simp [firstStray_cons, isGuard_iff, hm, hg, ih]

theorem eq_any_of_hasGuardModifier {functionName : String} {guarded : Bool}
    (h : hasGuardModifier functionName entries = .ok guarded) : guarded = entries.any isGuard := by
  induction entries with
  | nil =>
    cases h
    rfl
  | cons m entries ih =>
    rw [hasGuardModifier_cons] at h
    rw [List.any_cons]
    split at h
    next hm =>
      split at h
      next hg =>
        cases h
        simp [hg]
      next hg => simpa [hg] using ih h
    next hm => cases h

theorem unguarded_iff (function : Node) : Unguarded function ↔
    containsAssignment function ∧ function.modifiers.any isGuard = false ∧
      hasSenderCheck function = false := by
  rw [← Bool.not_eq_true, ← Bool.not_eq_true, containsAssignment_iff, hasSenderCheck_iff,
    List.any_eq_true]
  simp only [isGuard_iff, not_exists, not_and]
  exact ⟨fun ⟨ha, hg, hc⟩ ↦ ⟨ha, hg, hc⟩, fun ⟨ha, hg, hc⟩ ↦ ⟨ha, hg, hc⟩⟩

instance : DecidablePred Unguarded := fun function ↦
  decidable_of_iff _ (unguarded_iff function).symm

variable {node function : Node} {header : FunctionHeader}

theorem isCandidate_eq (hh : function.header? = some header) :
    isCandidate function = !(header.isConstructor || !header.visibility.isCallableExternally) := by
  cases function with
  | function loc header' parameters modifiers body =>
    obtain rfl := Option.some.inj hh
    obtain ⟨name, visibility, isConstructor⟩ := header'
    cases isConstructor <;> cases visibility <;> rfl
  | _ => cases hh

theorem exists_header_of_candidate (h : isCandidate function) :
    ∃ header, function.header? = some header := by
  cases function with
  | function loc header parameters modifiers body => exact ⟨header, rfl⟩
  | _ => cases h

theorem verdict_of_not_candidate (h : isCandidate node = false) : verdict node = .ok none := by
  cases node with
  | function loc header parameters modifiers body =>
    rw [isCandidate_eq rfl, Bool.not_eq_false'] at h
    rw [verdict, checkFunction, if_pos h]
  | _ => rfl

/-- The verdict on a function that can be called depends on how its modifier list reads. -/
theorem verdict_of_candidate (h : isCandidate function) (hh : function.header? = some header) :
    verdict function = (hasGuardModifier header.displayName function.modifiers).map fun guarded ↦
      if containsAssignment function && !guarded && !hasSenderCheck function then
        some (finding function.line header.displayName)
      else none := by
  cases function with
  | function loc header' parameters modifiers body =>
    obtain rfl := Option.some.inj hh
    rw [isCandidate_eq rfl, Bool.not_eq_true'] at h
    rw [verdict, checkFunction, if_neg (by rw [h]; exact Bool.false_ne_true), Node.modifiers]
    cases hasGuardModifier header'.displayName modifiers with
    | error fault => rfl
    | ok guarded =>
      simp only [bind, Except.bind, Except.map]
      split <;> rfl
  | _ => cases hh

theorem verdict_eq_error (h : isCandidate function) (hh : function.header? = some header)
    (fault : Fault) : verdict function = .error fault ↔
      ∃ entry, FirstStray function.modifiers entry ∧
        fault = strayFault header.displayName entry := by
  rw [verdict_of_candidate h hh, ← hasGuardModifier_eq_error]
  cases hasGuardModifier header.displayName function.modifiers with
  | error other => simp [Except.map]
  | ok guarded => simp [Except.map]

theorem verdict_eq_ok (h : isCandidate function) (hh : function.header? = some header)
    (hm : ¬ Malformed function) : verdict function =
      .ok (if Unguarded function then some (finding function.line header.displayName)
        else none) := by
  rw [verdict_of_candidate h hh]
  cases hguard : hasGuardModifier header.displayName function.modifiers with
  | error fault =>
    obtain ⟨entry, hfirst, -⟩ := (hasGuardModifier_eq_error _ _ _).mp hguard
    exact absurd (exists_firstStray_iff.mp ⟨entry, hfirst⟩) hm
  | ok guarded =>
    obtain rfl := eq_any_of_hasGuardModifier hguard
    refine congrArg Except.ok (if_congr ?_ rfl rfl)
    simp [unguarded_iff, and_assoc]

theorem malformed_iff (h : isCandidate function) (hh : function.header? = some header) :
    Malformed function ↔ ∃ fault, verdict function = .error fault := by
  simp only [verdict_eq_error h hh]
  constructor
  · intro hm
    obtain ⟨entry, hfirst⟩ := exists_firstStray_iff.mpr hm
    exact ⟨_, entry, hfirst, rfl⟩
  · rintro ⟨fault, entry, hfirst, -⟩
    exact exists_firstStray_iff.mp ⟨entry, hfirst⟩

theorem findingsIn_filter_isCandidate (nodes : List Node) :
    findingsIn (nodes.filter isCandidate) = findingsIn nodes := by
  induction nodes with
  | nil => rfl
  | cons node nodes ih =>
    cases hn : isCandidate node with
    | true => rw [List.filter_cons_of_pos hn, findingsIn, findingsIn, ih]
    | false =>
      rw [List.filter_cons_of_neg (by simpa using hn), findingsIn, verdict_of_not_candidate hn, ih]
      exact (ok_nil_both _).symm

theorem findingsIn_eq_ok {nodes : List Node} {pick : Node → Option Finding}
    (h : ∀ node ∈ nodes, verdict node = .ok (pick node)) :
    findingsIn nodes = .ok (nodes.filterMap pick) := by
  induction nodes with
  | nil => rfl
  | cons node nodes ih =>
    obtain ⟨hnode, hnodes⟩ := List.forall_mem_cons.mp h
    rw [findingsIn, hnode, ih hnodes]
    cases hp : pick node <;> simp [hp, both, Except.map, bind, Except.bind, pure, Except.pure]

theorem findingsIn_first_fault {before : List Node} {fault : Fault}
    (hb : ∀ n ∈ before, ¬ ∃ other, verdict n = .error other) (hn : verdict node = .error fault)
    (after : List Node) : findingsIn (before ++ node :: after) = .error fault := by
  have hbefore : ∃ found, findingsIn before = .ok found := by
    apply findingsIn_ok
    intro n hmem
    cases hv : verdict n with
    | ok found => exact ⟨found, rfl⟩
    | error other => exact absurd ⟨other, hv⟩ (hb n hmem)
  obtain ⟨found, hfound⟩ := hbefore
  rw [findingsIn_append, findingsIn, hfound, hn]
  rfl

theorem exists_first_of_findingsIn {nodes : List Node} {fault : Fault}
    (h : findingsIn nodes = .error fault) : ∃ before node after, nodes = before ++ node :: after ∧
      (∀ n ∈ before, ¬ ∃ other, verdict n = .error other) ∧ verdict node = .error fault := by
  induction nodes with
  | nil => cases h
  | cons node nodes ih =>
    rw [findingsIn] at h
    cases hv : verdict node with
    | error first =>
      rw [hv] at h
      cases h
      exact ⟨[], node, nodes, rfl, fun _ hn ↦ absurd hn List.not_mem_nil, hv⟩
    | ok found =>
      have hrest : findingsIn nodes = .error fault := by
        rw [hv] at h
        cases hf : findingsIn nodes with
        | error other => rwa [hf] at h
        | ok rest =>
          rw [hf] at h
          cases h
      obtain ⟨before, n, after, rfl, hb, hn⟩ := ih hrest
      have hnode : ¬ ∃ other, verdict node = .error other := by simp [hv]
      exact ⟨node :: before, n, after, rfl, List.forall_mem_cons.mpr ⟨hnode, hb⟩, hn⟩

theorem detect_eq_findingsIn (tree : Node) (source : String) :
    detect tree source = findingsIn (candidates tree) := by
  rw [detect_eq, candidates, findingsIn_filter_isCandidate]

variable {tree : Node}

theorem isCandidate_of_mem (h : function ∈ candidates tree) : isCandidate function :=
  List.of_mem_filter h

theorem malformed_iff_of_mem (h : function ∈ candidates tree) :
    Malformed function ↔ ∃ fault, verdict function = .error fault := by
  obtain ⟨header, hh⟩ := exists_header_of_candidate (isCandidate_of_mem h)
  exact malformed_iff (isCandidate_of_mem h) hh

theorem detect_eq_error (tree : Node) (source : String) (fault : Fault) :
    detect tree source = .error fault ↔
      ∃ before function after header entry, candidates tree = before ++ function :: after ∧
        (∀ f ∈ before, ¬ Malformed f) ∧ function.header? = some header ∧
        FirstStray function.modifiers entry ∧ fault = strayFault header.displayName entry := by
  rw [detect_eq_findingsIn]
  constructor
  · intro h
    obtain ⟨before, function, after, hc, hb, hfunction⟩ := exists_first_of_findingsIn h
    have hmem : function ∈ candidates tree := hc ▸ List.mem_append_right _ List.mem_cons_self
    obtain ⟨header, hh⟩ := exists_header_of_candidate (isCandidate_of_mem hmem)
    obtain ⟨entry, hfirst, rfl⟩ := (verdict_eq_error (isCandidate_of_mem hmem) hh _).mp hfunction
    refine ⟨before, function, after, header, entry, hc, fun f hf ↦ ?_, hh, hfirst, rfl⟩
    rw [malformed_iff_of_mem (hc ▸ List.mem_append_left _ hf)]
    exact hb f hf
  · rintro ⟨before, function, after, header, entry, hc, hb, hh, hfirst, rfl⟩
    have hmem : function ∈ candidates tree := hc ▸ List.mem_append_right _ List.mem_cons_self
    have hfunction := (verdict_eq_error (isCandidate_of_mem hmem) hh _).mpr ⟨entry, hfirst, rfl⟩
    rw [hc]
    refine findingsIn_first_fault (fun f hf ↦ ?_) hfunction after
    rw [← malformed_iff_of_mem (hc ▸ List.mem_append_left _ hf)]
    exact hb f hf

theorem detect_eq_ok (h : ∀ f ∈ candidates tree, ¬ Malformed f) (source : String) :
    ∃ found : List Finding, detect tree source = .ok found ∧
      List.Forall₂ Reports ((candidates tree).filter Unguarded) found := by
  let pick (function : Node) : Option Finding :=
    if Unguarded function then
      function.header?.map fun header ↦ finding function.line header.displayName
    else none
  have hverdict : ∀ f ∈ candidates tree, verdict f = .ok (pick f) := by
    intro f hf
    obtain ⟨header, hh⟩ := exists_header_of_candidate (isCandidate_of_mem hf)
    rw [verdict_eq_ok (isCandidate_of_mem hf) hh (h f hf)]
    simp only [pick, hh, Option.map_some]
  refine ⟨(candidates tree).filterMap pick, ?_, forall₂_filter_filterMap ?_ ?_⟩
  · rw [detect_eq_findingsIn]
    exact findingsIn_eq_ok hverdict
  · intro f hf hu
    obtain ⟨header, hh⟩ := exists_header_of_candidate (isCandidate_of_mem hf)
    have hname : some header.displayName = f.header?.map FunctionHeader.displayName := by
      rw [hh]
      rfl
    exact ⟨finding f.line header.displayName, by simp [pick, hu, hh], rfl, rfl, rfl, hname⟩
  · intro f hf hu
    simp [pick, hu]

/-- The detector faults exactly if some function that it checks is malformed, with the fault about
the first stray entry of the first such function. Otherwise it reports, in the order of the tree,
the functions that assign and have neither a guard nor a check of the sender. -/
theorem detect_candidates (tree : Node) (source : String) :
    ((∃ fault, detect tree source = Except.error fault) ↔ ∃ f ∈ candidates tree, Malformed f) ∧
    (∀ fault, detect tree source = Except.error fault ↔
      ∃ before function after header entry, candidates tree = before ++ function :: after ∧
        (∀ f ∈ before, ¬ Malformed f) ∧ function.header? = some header ∧
        FirstStray function.modifiers entry ∧
        fault = ⟨entry.kindName, entry.line,
          "modifier list of " ++ header.displayName ++ " holds a non-modifier node"⟩) ∧
    ((∀ f ∈ candidates tree, ¬ Malformed f) → ∃ found : List Finding,
      detect tree source = Except.ok found ∧
        List.Forall₂ Reports ((candidates tree).filter Unguarded) found) := by
  refine ⟨⟨?_, ?_⟩, detect_eq_error tree source, fun h ↦ detect_eq_ok h source⟩
  · rintro ⟨fault, h⟩
    obtain ⟨before, function, after, header, entry, hc, -, -, hfirst, -⟩ :=
      (detect_eq_error tree source fault).mp h
    exact ⟨function, hc ▸ List.mem_append_right _ List.mem_cons_self,
      exists_firstStray_iff.mp ⟨entry, hfirst⟩⟩
  · intro h
    obtain ⟨before, function, after, hc, hb, hm⟩ := exists_first h
    obtain ⟨entry, hfirst⟩ := exists_firstStray_iff.mpr hm
    have hmem : function ∈ candidates tree := hc ▸ List.mem_append_right _ List.mem_cons_self
    obtain ⟨header, hh⟩ := exists_header_of_candidate (isCandidate_of_mem hmem)
    exact ⟨_, (detect_eq_error tree source _).mpr
      ⟨before, function, after, header, entry, hc, hb, hh, hfirst, rfl⟩⟩

-- What was found in `set` is lost with the fault in `bad`, which assigns nothing.
open Node.Build in
example : detect (contract 1 "C"
    [Node.Build.function 2 "set" .public []
        [assignment 3 8 "=" (identifier 3 8 "x") (literal 3 12 "1")],
      Node.Build.function 5 "bad" .external [modifier 5 "payable", identifier 6 4 "y"] []]) "" =
    .error ⟨"Identifier", 6, "modifier list of bad holds a non-modifier node"⟩ :=
  rfl

end AccessControl

end ContractAudit
