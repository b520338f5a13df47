import Cadena.Base.FirstMatch
import Cadena.Base.Split
import Cadena.Base.Text

/-!
# The marker of a transferred comment

The text functions of the comment synchronization: `commentMarker` and the
Atlassian documents of `jira-connector.adapter.ts`, and
`transferredCommentBody` of `connector.service.ts`. The marker stands at the
end of a transferred comment, and `commentMarker` takes the first one in the
text. So the copy is recognized exactly when the text before it, which
people write, holds none (`commentMarker_transferred`).
-/

namespace Cadena.Connectors.Comments

open Cadena.Base

inductive Provider where
  | jira
  | servicenow
  deriving DecidableEq

def providerName : Provider → Text
  | .jira => "Jira".toList
  | .servicenow => "ServiceNow".toList

/-- `text.toLowerCase()` where the text is ASCII. -/
def lowerText (t : Text) : Text := t.map Char.toLower

/-! ## `commentMarker` -/

def markerOpening : Text := "[cadena-comment:".toList

/-- `[0-9a-f-]` in any case. -/
def isMarkerChar (c : Char) : Bool :=
  c.isDigit || ('a' ≤ c.toLower && c.toLower ≤ 'f') || c = '-'

/-- `/\[cadena-comment:([0-9a-f-]{36})\]/i`, character by character. -/
def markerPattern : List (Char → Bool) :=
  markerOpening.map (fun o c => c.toLower == o) ++ List.replicate 36 isMarkerChar ++ [(· == ']')]

/-- The marker in a match: what stands between its brackets and the colon. -/
def capturedMarker (w : Text) : Text := lowerText ((w.drop 16).take 36)

def matchMarker (t : Text) : Option Text := (matchAt markerPattern t).map capturedMarker

def commentMarker (t : Text) : Option Text := firstMatch matchMarker t

/-- What is not an end of line. -/
def inLine (c : Char) : Bool := c != '\r' && c != '\n'

theorem inLine_of_ne {c : Char} (hr : c ≠ '\r') (hn : c ≠ '\n') : inLine c = true := by
  simp [inLine, hr, hn]

theorem markerPattern_inLine : ∀ q ∈ markerPattern, ∀ c, q c = true → inLine c = true := by
  have hends : ∀ q ∈ markerPattern, q '\r' = false ∧ q '\n' = false := by
    intro q hq
    simp only [markerPattern, List.mem_append, List.mem_map, List.mem_replicate,
      List.mem_singleton] at hq
    rcases hq with (⟨o, ho, rfl⟩ | ⟨-, rfl⟩) | rfl
    · have hopening : markerOpening.all (fun o => !('\r' == o) && !('\n' == o)) = true := by decide
      simpa using List.all_eq_true.mp hopening o ho
    · decide
    · decide
  intro q hq c hc
  refine inLine_of_ne ?_ ?_
  · rintro rfl
    rw [(hends q hq).1] at hc
    cases hc
  · rintro rfl
    rw [(hends q hq).2] at hc
    cases hc

theorem matchMarker_readsOnly : ReadsOnly inLine matchMarker :=
  (matchAt_readsOnly markerPattern_inLine).map capturedMarker

theorem commentMarker_append {c : Char} (hc : inLine c = false) (l t : Text) :
    commentMarker (l ++ c :: t) = (commentMarker l).or (commentMarker t) :=
  firstMatch_append matchMarker_readsOnly rfl hc l t

theorem commentMarker_newline (t : Text) : commentMarker ('\n' :: t) = commentMarker t := by
  have h := commentMarker_append (c := '\n') rfl [] t
  rwa [show commentMarker [] = none from rfl, Option.none_or] at h

/-! ## The marker of a delivery -/

theorem hexDigit_markerChar (n : Nat) (h : n < 16) :
    isMarkerChar (hexDigit n) = true ∧ (hexDigit n).toLower = hexDigit n := by
  revert n
  decide

theorem hexDigits_markerChar {n k : Nat} {c : Char} (hc : c ∈ hexDigits n k) :
    isMarkerChar c = true ∧ c.toLower = c := by
  induction k generalizing n with
  | zero => cases hc
  | succ k ih =>
    rw [hexDigits, List.mem_append, List.mem_singleton] at hc
    rcases hc with hc | rfl
    · exact ih hc
    · exact hexDigit_markerChar _ (Nat.mod_lt _ (by decide))

theorem uuidText_markerChar {u : Uuid} {c : Char} (hc : c ∈ uuidText u) :
    isMarkerChar c = true ∧ c.toLower = c := by
  have hdash : isMarkerChar '-' = true ∧ '-'.toLower = '-' := by decide
  have hdigit : ∀ {d}, d ∈ hexDigits u.toNat 32 → isMarkerChar d = true ∧ d.toLower = d :=
    fun hd => hexDigits_markerChar hd
  have htake : ∀ {i j : Nat}, c ∈ ((hexDigits u.toNat 32).drop i).take j →
      isMarkerChar c = true ∧ c.toLower = c :=
    fun hd => hdigit (List.mem_of_mem_drop (List.mem_of_mem_take hd))
  simp only [uuidText, List.mem_append, List.mem_cons, List.append_assoc, List.cons_append] at hc
  rcases hc with hc | rfl | hc | rfl | hc | rfl | hc | rfl | hc
  · exact hdigit (List.mem_of_mem_take hc)
  · exact hdash
  · exact htake hc
  · exact hdash
  · exact htake hc
  · exact hdash
  · exact htake hc
  · exact hdash
  · exact hdigit (List.mem_of_mem_drop hc)

theorem lowerText_uuidText (u : Uuid) : lowerText (uuidText u) = uuidText u := by
  rw [lowerText, List.map_congr_left (g := id) fun c hc => (uuidText_markerChar hc).2]
  exact List.map_id _

/-- The line that `transferredCommentBody` ends with. -/
def markerLine (marker : Text) : Text := markerOpening ++ marker ++ [']']

theorem commentMarker_markerLine (u : Uuid) :
    commentMarker (markerLine (uuidText u)) = some (uuidText u) := by
  have hopening : List.Forall₂ (fun q c => q c = true)
      (markerOpening.map fun o c => c.toLower == o) markerOpening := by
    have hsame : markerOpening.all (fun c => c.toLower == c) = true := by decide
    rw [List.forall₂_map_left_iff, List.forall₂_same]
    exact List.all_eq_true.mp hsame
  have hmarker : List.Forall₂ (fun q c => q c = true)
      (List.replicate 36 isMarkerChar) (uuidText u) := by
    have h := forall₂_replicate fun c (hc : c ∈ uuidText u) => (uuidText_markerChar hc).1
    rwa [uuidText_length] at h
  have hclosing : List.Forall₂ (fun q c => q c = true) [(· == ']')] [']'] :=
    .cons rfl .nil
  have hmatch : matchAt markerPattern (markerLine (uuidText u)) = some (markerLine (uuidText u)) := by
    have h := matchAt_append (List.rel_append (List.rel_append hopening hmarker) hclosing) []
    rwa [List.append_nil] at h
  have hcapture : capturedMarker (markerLine (uuidText u)) = uuidText u := by
    rw [capturedMarker, markerLine, List.append_assoc,
      show (16 : Nat) = markerOpening.length from rfl, List.drop_left,
      List.take_append_of_le_length (by simp), List.take_of_length_le (by simp),
      lowerText_uuidText]
  exact firstMatch_of_match (by rw [matchMarker, hmatch, Option.map_some, hcapture])

/-! ## Atlassian documents -/

/-- What a comment body of Jira may be: text, a node, or nothing. -/
inductive AdfNode where
  | plain (t : Text)
  /-- `{ type: 'text', text }`. -/
  | text (t : Text)
  | node (type : String) (content : List AdfNode)
  | absent

def endsLine (type : String) : Bool :=
  ["paragraph", "heading", "blockquote", "listItem"].contains type

mutual

def jiraCommentText : AdfNode → Text
  | .plain t => t
  | .text t => t
  | .node type content =>
    let children := jiraCommentTexts content
    if endsLine type then children ++ ['\n'] else children
  | .absent => []

/-- `content.map(jiraCommentText).join('')`. -/
def jiraCommentTexts : List AdfNode → Text
  | [] => []
  | n :: ns => jiraCommentText n ++ jiraCommentTexts ns

end

/-- `value.split(/\r?\n/)`. -/
def splitLines : Text → List Text
  | [] => [[]]
  | '\r' :: '\n' :: t => [] :: splitLines t
  | '\n' :: t => [] :: splitLines t
  | c :: t => consHead c (splitLines t)

def jiraParagraph (line : Text) : AdfNode :=
  .node "paragraph" (if line = [] then [] else [.text line])

def jiraCommentAdf (value : Text) : AdfNode :=
  .node "doc" ((splitLines value).map jiraParagraph)

/-- Windows line ends as Unix ones. -/
def unixLines : Text → Text
  | [] => []
  | '\r' :: '\n' :: t => '\n' :: unixLines t
  | c :: t => c :: unixLines t

theorem jiraCommentText_paragraph (line : Text) :
    jiraCommentText (jiraParagraph line) = line ++ ['\n'] := by
  cases line with
  | nil => rfl
  | cons c line => simp [jiraParagraph, jiraCommentText, jiraCommentTexts, endsLine]

theorem splitLines_ne_nil (t : Text) : splitLines t ≠ [] := by
  fun_induction splitLines t with
  | case1 => simp
  | case2 => simp
  | case3 => simp
  | case4 c t => exact consHead_ne_nil c _

theorem jiraCommentTexts_splitLines (t : Text) :
    jiraCommentTexts ((splitLines t).map jiraParagraph) = unixLines t ++ ['\n'] := by
  fun_induction splitLines t with
  | case1 => rfl
  | case2 t ih =>
    rw [List.map_cons, jiraCommentTexts, jiraCommentText_paragraph, ih, unixLines]
    rfl
  | case3 t ih =>
    rw [List.map_cons, jiraCommentTexts, jiraCommentText_paragraph, ih]
    rfl
  | case4 c t h1 _ ih =>
    have hcons : unixLines (c :: t) = c :: unixLines t := by
      rw [unixLines]
      exact h1
    obtain ⟨line, lines, hlines⟩ := List.exists_cons_of_ne_nil (splitLines_ne_nil t)
    rw [hcons, List.cons_append, ← ih, hlines]
    simp [consHead, jiraCommentTexts, jiraCommentText_paragraph]

theorem jiraCommentText_adf (value : Text) :
    jiraCommentText (jiraCommentAdf value) = unixLines value ++ ['\n'] :=
  jiraCommentTexts_splitLines value

theorem unixLines_takeWhile (t : Text) : (unixLines t).takeWhile inLine = t.takeWhile inLine := by
  fun_induction unixLines t with
  | case1 => rfl
  | case2 => rfl
  | case3 c t _ ih =>
    by_cases hc : inLine c = true
    · rw [List.takeWhile_cons_of_pos hc, List.takeWhile_cons_of_pos hc, ih]
    · rw [List.takeWhile_cons_of_neg hc, List.takeWhile_cons_of_neg hc]

theorem commentMarker_unixLines (t : Text) : commentMarker (unixLines t) = commentMarker t := by
  fun_induction unixLines t with
  | case1 => rfl
  | case2 t ih =>
    have hreturn : commentMarker ('\r' :: '\n' :: t) = commentMarker ('\n' :: t) := by
      have h := commentMarker_append (c := '\r') rfl [] ('\n' :: t)
      rwa [show commentMarker [] = none from rfl, Option.none_or] at h
    rw [hreturn, commentMarker_newline, commentMarker_newline, ih]
  | case3 c t hne ih =>
    have hhere : matchMarker (c :: unixLines t) = matchMarker (c :: t) := by
      have hcut := unixLines_takeWhile (c :: t)
      rw [unixLines] at hcut
      · rw [matchMarker_readsOnly (c :: unixLines t), hcut, ← matchMarker_readsOnly (c :: t)]
      · exact hne
    rw [commentMarker, commentMarker, firstMatch_cons, firstMatch_cons, hhere]
    exact congrArg _ ih

/-- A comment body as the provider stores it: a document, or a journal
entry. -/
inductive ProviderBody where
  | document (value : AdfNode)
  | journal (value : Text)

/-- The body that `pushPublicComment` sends. -/
def writeBody : Provider → Text → ProviderBody
  | .jira, body => .document (jiraCommentAdf body)
  | .servicenow, body => .journal body

/-- The text that `fetchPublicComments` makes of it. -/
def readBody : ProviderBody → Text
  | .document value => jiraCommentText value
  | .journal value => value

theorem commentMarker_readBody (provider : Provider) (body : Text) :
    commentMarker (readBody (writeBody provider body)) = commentMarker body := by
  cases provider with
  | servicenow => rfl
  | jira =>
    have h := commentMarker_append (c := '\n') rfl (unixLines body) []
    rw [show commentMarker [] = none from rfl, Option.or_none, commentMarker_unixLines] at h
    exact (congrArg commentMarker (jiraCommentText_adf body)).trans h

/-- What `transferredCommentBody` puts before the marker. -/
def attribution (body authorId authorName : Text) (sourceSystem : Provider) : Text :=
  let author := if authorName = [] then authorId else authorName
  trim body ++ "\n\nâ€” Originally posted by ".toList ++ author ++ " (".toList ++ authorId ++
    ") in ".toList ++ providerName sourceSystem

def transferredCommentBody (body authorId authorName : Text) (sourceSystem : Provider)
    (marker : Text) : Text :=
  attribution body authorId authorName sourceSystem ++ '\n' :: markerLine marker

theorem commentMarker_transferred (body authorId authorName : Text) (sourceSystem : Provider)
    (u : Uuid) :
    commentMarker (transferredCommentBody body authorId authorName sourceSystem (uuidText u)) =
      (commentMarker (attribution body authorId authorName sourceSystem)).or
        (some (uuidText u)) := by
  rw [transferredCommentBody, commentMarker_append (c := '\n') rfl, commentMarker_markerLine]

end Cadena.Connectors.Comments
