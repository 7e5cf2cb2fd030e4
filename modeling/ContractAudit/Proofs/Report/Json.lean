import ContractAudit.Proofs.Json.Record
import ContractAudit.Proofs.Timestamp
import ContractAudit.Report.Json

namespace ContractAudit

open Json

structure Location.Fits (loc : Location) : Prop where
  line : loc.line < UInt64.size
  column : loc.column < UInt64.size

structure Finding.Fits (f : Finding) : Prop where
  line : f.line < UInt64.size
  stateChanges : ∀ locs, f.stateChanges = some locs → ∀ loc ∈ locs, loc.Fits

/-- All numbers of a report have 64 bits. -/
structure Report.Fits (r : Report) : Prop where
  issueCount : r.issueCount < UInt64.size
  issues : ∀ s, ∀ f ∈ r.issues.get s, f.Fits
  severityCounts : ∀ s, r.summary.severityCounts.get s < UInt64.size
  detectorCounts : ∀ id n, r.summary.detectorCounts.get? id = some n → n < UInt64.size
  narrative : ∀ e, r.narrative = some e → e.analysis.elapsedMs < UInt64.size

theorem Location.ofJson?_toJson {loc : Location} (h : loc.Fits) :
    ofJson? loc.toJson = some loc := by
  have hrecord : loc.toJson.record? ["line", "column"] 2 =
      some [some (.nat loc.line), some (.nat loc.column)] := rfl
  simp [ofJson?, hrecord, nat64?_nat h.line, nat64?_nat h.column]

theorem Severity.ofJson?_toJson (s : Severity) : ofJson? s.toJson = some s := by
  cases s <;> rfl

theorem DetectorId.ofName?_name (id : DetectorId) : ofName? id.name = some id := by
  cases id <;> rfl

theorem DetectorId.ofJson?_toJson (id : DetectorId) : ofJson? id.toJson = some id :=
  id.ofName?_name

namespace Finding

def fields (f : Finding) : List (String × Option Json) :=
  [("detector", some f.detector.toJson), ("severity", some f.severity.toJson),
    ("description", some (.text f.description)), ("details", some (.text f.details)),
    ("line", some (.nat f.line)), ("function", f.function.map .text),
    ("stateChangesLocations", f.stateChanges.map fun locs ↦ .array (locs.map Location.toJson))]

theorem toJson_eq (f : Finding) : f.toJson = .object (given f.fields) := by
  obtain ⟨detector, severity, description, details, line, function, stateChanges⟩ := f
  cases function <;> cases stateChanges <;> rfl

theorem ofJson?_toJson {f : Finding} (h : f.Fits) : ofJson? f.toJson = some f := by
  have hrecord := record?_given f.fields (by simp [fields]) 5
  rw [← toJson_eq] at hrecord
  have hfunction : optional? text? (f.function.map .text) = some f.function :=
    optional?_map fun _ _ ↦ ⟨rfl, nofun⟩
  have hchanges : optional? (list? Location.ofJson?)
      (f.stateChanges.map fun locs ↦ .array (locs.map Location.toJson)) = some f.stateChanges :=
    optional?_map fun locs hlocs ↦ ⟨list?_map fun loc hloc ↦
      Location.ofJson?_toJson (h.stateChanges locs hlocs loc hloc), nofun⟩
  refine Option.bind_eq_some_iff.mpr ⟨_, hrecord, ?_⟩
  simp [fields, DetectorId.ofJson?_toJson, Severity.ofJson?_toJson, text?, nat64?_nat h.line,
    hfunction, hchanges]

end Finding

theorem Buckets.ofJson?_toJson {b : Buckets} (h : ∀ s, ∀ f ∈ b.get s, f.Fits) :
    ofJson? b.toJson = some b := by
  have hlist (s : Severity) :
      list? Finding.ofJson? (.array ((b.get s).map Finding.toJson)) = some (b.get s) :=
    list?_map fun f hf ↦ Finding.ofJson?_toJson (h s f hf)
  have hrecord : b.toJson.record? ["high", "medium", "low", "informational"] 4 =
      some (Severity.all.map fun s ↦ some (.array ((b.get s).map Finding.toJson))) := rfl
  simp only [ofJson?, hrecord, Severity.all, List.map_cons, List.map_nil, hlist,
    Option.bind_eq_bind, Option.bind_some]
  rfl

theorem SeverityCounts.ofJson?_toJson {c : SeverityCounts} (h : ∀ s, c.get s < UInt64.size) :
    ofJson? c.toJson = some c := by
  have hrecord : c.toJson.record? ["high", "medium", "low", "informational"] 4 =
      some (Severity.all.map fun s ↦ some (.nat (c.get s))) := rfl
  simp only [ofJson?, hrecord, Severity.all, List.map_cons, List.map_nil, nat64?_nat (h _),
    Option.bind_eq_bind, Option.bind_some]
  rfl

namespace DetectorCounts

theorem get?_set (c : DetectorCounts) (id d : DetectorId) (n : Nat) :
    (c.set id n).get? d = if id = d then some n else c.get? d := by
  cases id <;> cases d <;> rfl

theorem ext_get? {c c' : DetectorCounts} (h : ∀ d, c.get? d = c'.get? d) : c = c' := by
  obtain ⟨_, _, _, _, _⟩ := c
  obtain ⟨_, _, _, _, _⟩ := c'
  have hreentrancy := h .reentrancy
  have hoverflow := h .overflowUnderflow
  have hunchecked := h .uncheckedCall
  have haccess := h .accessControl
  have hfault := h .detectorError
  simp only [get?] at hreentrancy hoverflow hunchecked haccess hfault
  subst hreentrancy hoverflow hunchecked haccess hfault
  rfl

theorem get?_foldl_set (c : DetectorCounts) (ids : List DetectorId) (start : DetectorCounts)
    (d : DetectorId) :
    ((ids.filterMap fun id ↦ (c.get? id).map (id, ·)).foldl
      (fun c' entry ↦ c'.set entry.1 entry.2) start).get? d =
        if d ∈ ids then (c.get? d).or (start.get? d) else start.get? d := by
  induction ids generalizing start with
  | nil => rfl
  | cons id ids ih =>
    by_cases hd : d = id
    · subst hd
      cases hn : c.get? d with
      | none => simp [hn, ih]
      | some n => simp [hn, ih, get?_set]
    · have hne : id ≠ d := fun heq ↦ hd heq.symm
      cases hn : c.get? id with
      | none => simp [hn, ih, hd]
      | some n => simp [hn, ih, get?_set, hd, hne]

theorem foldl_set_toList (c : DetectorCounts) :
    c.toList.foldl (fun c' entry ↦ c'.set entry.1 entry.2) {} = c := by
  refine ext_get? fun d ↦ ?_
  have hall : d ∈ DetectorId.all := by cases d <;> decide
  have hempty : ({} : DetectorCounts).get? d = none := by cases d <;> rfl
  rw [toList, get?_foldl_set, if_pos hall, hempty, Option.or_none]

theorem foldlM_entries {entries : List (DetectorId × Nat)}
    (h : ∀ entry ∈ entries, entry.2 < UInt64.size) (c : DetectorCounts) :
    (entries.map fun entry ↦ (entry.1.name, Json.nat entry.2)).foldlM addEntry? c =
      some (entries.foldl (fun c' entry ↦ c'.set entry.1 entry.2) c) := by
  induction entries generalizing c with
  | nil => rfl
  | cons entry entries ih =>
    have hrest := ih fun e he ↦ h e (List.mem_cons_of_mem _ he)
    have hentry : addEntry? c (entry.1.name, Json.nat entry.2) =
        some (c.set entry.1 entry.2) := by
      simp [DetectorId.ofName?_name, addEntry?, nat64?_nat (h entry List.mem_cons_self)]
    rw [List.map_cons, List.foldlM_cons, hentry]
    exact hrest _

theorem ofJson?_toJson {c : DetectorCounts} (h : ∀ id n, c.get? id = some n → n < UInt64.size) :
    ofJson? c.toJson = some c := by
  have hentries : ∀ entry ∈ c.toList, entry.2 < UInt64.size := by
    intro entry hentry
    obtain ⟨id, -, hid⟩ := List.mem_filterMap.mp hentry
    obtain ⟨n, hn, rfl⟩ := Option.map_eq_some_iff.mp hid
    exact h id n hn
  exact (foldlM_entries hentries {}).trans (congrArg some c.foldl_set_toList)

end DetectorCounts

theorem Summary.ofJson?_toJson {s : Summary} (hs : ∀ x, s.severityCounts.get x < UInt64.size)
    (hd : ∀ id n, s.detectorCounts.get? id = some n → n < UInt64.size) :
    ofJson? s.toJson = some s := by
  have hrecord : s.toJson.record? ["severityCounts", "detectorCounts"] 2 =
      some [some s.severityCounts.toJson, some s.detectorCounts.toJson] := rfl
  simp [ofJson?, hrecord, SeverityCounts.ofJson?_toJson hs, DetectorCounts.ofJson?_toJson hd]

theorem Timestamp.ofJson?_toJson (t : Timestamp) : ofJson? t.toJson = some t := by
  simp only [ofJson?, toJson, text?, Option.bind_eq_bind, Option.bind_some, parse?_render]

theorem Narrative.Analysis.ofJson?_toJson {a : Analysis} (h : a.elapsedMs < UInt64.size) :
    ofJson? a.toJson = some a := by
  have helapsed : elapsedOfJson? (elapsedToJson a.elapsedMs) = some a.elapsedMs := nat64?_nat h
  have hrecord : a.toJson.record? ["analysis", "model", "processingTime"] 2 =
      some [some (.text a.analysis), some (.text a.model), some (elapsedToJson a.elapsedMs)] := rfl
  simp [ofJson?, hrecord, text?, defaulted?, helapsed]

theorem Enhancement.ofJson?_toJson {e : Enhancement} (h : e.analysis.elapsedMs < UInt64.size) :
    ofJson? e.toJson = some e := by
  have hrecord : e.toJson.record? ["analysis", "timestamp"] 2 =
      some [some e.analysis.toJson, some e.timestamp.toJson] := rfl
  simp [ofJson?, hrecord, Narrative.Analysis.ofJson?_toJson h, Timestamp.ofJson?_toJson]

namespace Report

def fields (r : Report) : List (String × Option Json) :=
  [("contractPath", some (.text r.contractPath)), ("timestamp", some r.timestamp.toJson),
    ("issueCount", some (.nat r.issueCount)), ("issues", some r.issues.toJson),
    ("summary", some r.summary.toJson), ("ai", r.narrative.map Enhancement.toJson),
    ("aiError", r.narrativeError.map .text)]

theorem toJson_eq (r : Report) : r.toJson = .object (given r.fields) := by
  obtain ⟨contractPath, timestamp, issueCount, issues, summary, narrative, narrativeError⟩ := r
  cases narrative <;> cases narrativeError <;> rfl

theorem ofJson?_toJson {r : Report} (h : r.Fits) : ofJson? r.toJson = some r := by
  have hrecord := record?_given r.fields (by simp [fields]) 5
  rw [← toJson_eq] at hrecord
  have hnarrative : optional? Enhancement.ofJson? (r.narrative.map Enhancement.toJson) =
      some r.narrative :=
    optional?_map fun e he ↦ ⟨Enhancement.ofJson?_toJson (h.narrative e he), nofun⟩
  have herror : optional? text? (r.narrativeError.map .text) = some r.narrativeError :=
    optional?_map fun _ _ ↦ ⟨rfl, nofun⟩
  refine Option.bind_eq_some_iff.mpr ⟨_, hrecord, ?_⟩
  simp [fields, text?, Timestamp.ofJson?_toJson, nat64?_nat h.issueCount,
    Buckets.ofJson?_toJson h.issues, Summary.ofJson?_toJson h.severityCounts h.detectorCounts,
    hnarrative, herror]

/-- A report is read back from its JSON value, so the value determines the report. -/
theorem toJson_faithful (r : Report) (h : r.Fits) :
    ofJson? r.toJson = some r ∧
      ∀ other : Report, other.Fits → r.toJson = other.toJson → r = other := by
  refine ⟨ofJson?_toJson h, fun other hother heq ↦ ?_⟩
  have hread := ofJson?_toJson h
  rw [heq, ofJson?_toJson hother] at hread
  exact (Option.some.inj hread).symm

def fullReport : Report where
  contractPath := "a/\"B\".sol"
  timestamp := ⟨-44, 2, 29, 23, 59, 60, 120000000, by decide⟩
  issueCount := 18446744073709551615
  issues :=
    { high := [⟨.reentrancy, .low, "d\n", "", 3, none, some []⟩]
      informational := [⟨.detectorError, .high, "", "x", 0, some "", some [⟨1, 0⟩, ⟨1, 0⟩]⟩] }
  summary := ⟨⟨1, 2, 3, 4⟩, { uncheckedCall := some 0, detectorError := some 7 }⟩
  narrative := some ⟨⟨"text", "model", 12⟩, .epoch⟩
  narrativeError := some "none"

theorem toJson_faithful_fullReport :
    fullReport.Fits ∧ ofJson? fullReport.toJson = some fullReport := by
  have hlocs (locs : List Location) (h : some [⟨1, 0⟩, ⟨1, 0⟩] = some locs) :
      ∀ loc ∈ locs, loc.Fits := by
    cases h
    simpa using (⟨by decide, by decide⟩ : (⟨1, 0⟩ : Location).Fits)
  have hfits : fullReport.Fits := by
    refine ⟨by decide, ?_, ?_, ?_, ?_⟩
    · intro s f hf
      cases s with
      | high =>
        obtain rfl := List.mem_singleton.mp hf
        exact ⟨by decide, fun locs h ↦ by cases h; simp⟩
      | medium => cases hf
      | low => cases hf
      | informational =>
        obtain rfl := List.mem_singleton.mp hf
        exact ⟨by decide, hlocs⟩
    · intro s
      cases s <;> decide
    · intro id n hn
      cases id <;> cases hn <;> decide
    · intro e he
      cases he
      decide
  exact ⟨hfits, (toJson_faithful fullReport hfits).1⟩

end Report

end ContractAudit
