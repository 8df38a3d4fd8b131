import Khala.Contracts.EventContent

/-! Channel events made of the records that another system publishes: every field is cleaned on its
own. -/

namespace Khala.Aiur

open Js Decode Event

/-- The value of a member, if there is an object and it has one. -/
def get (members : Option Members) (key : String) : Option Json :=
  members.bind fun members => lookup members (lit key)

def object : Option Json → Option Members
  | some (.object members) => some members
  | _ => none

/-- A text that is not empty. -/
def str : Option Json → Option Text
  | some (.string value) => if value = [] then none else some value
  | _ => none

/-- A positive safe integer. -/
def num : Option Json → Option Nat
  | some (.number value) => (spelledNat value.text).filter fun n => 0 < n ∧ n ≤ maxSafeInteger
  | _ => none

def isBool (expected : Bool) : Option Json → Bool
  | some (.bool value) => value == expected
  | _ => false

def isText (expected : String) : Option Json → Bool
  | some (.string value) => value == lit expected
  | _ => false

/-- A text that a reader of labels, or of what is shown, accepts. -/
def validText (text : Text) (bytes : Nat) (points : Option Nat) (display : Bool) : Option Text :=
  match if display then displayText (.string text) [] bytes else label (.string text) [] bytes with
  | .ok checked => if points.any (· < (codePoints checked).length) then none else some checked
  | .error _ => none

def valid (value : Option Json) (bytes : Nat) (points : Option Nat) (display : Bool) :
    Option Text :=
  (str value).bind fun text => validText text bytes points display

def idOf (value : Option Json) : Option Text :=
  match num value with
  | some n => validText (decimal n) 64 (some 64) false
  | none => valid value 64 (some 64) false

def isHexUnit (u : CodeUnit) : Bool :=
  isDigit u || (65 ≤ u && u ≤ 70) || (97 ≤ u && u ≤ 102)

def sha : Option Json → Option Text
  | some (.string value) =>
    if 7 ≤ value.length ∧ value.length ≤ 64 ∧ value.all isHexUnit = true
      then some (value.map asciiLower) else none
  | _ => none

def isBreak (u : CodeUnit) : Bool := u == 13 || u == 10 || u == 9

/-- Runs of breaks become single spaces; `inside` tells that the last unit was part of a run. -/
def spaceBreaks (inside : Bool) : Text → Text
  | [] => []
  | u :: rest =>
    if isBreak u then if inside then spaceBreaks true rest else 32 :: spaceBreaks true rest
    else u :: spaceBreaks false rest

/-- The text on one line, without control characters and without white space around it. -/
def flattened (text : Text) : Text :=
  trim ((spaceBreaks false text).filter fun u => !isControl u)

/-- The flattened text cut to so many code points. -/
def cutLine (text : Text) (max : Nat) : Option Text :=
  if text = [] ∨ isWellFormed text = false then none
  else if max < (codePoints text).length then
    validText (((codePoints text).take (max - 1)).flatten ++ lit "…") (max * 4) (some max) true
  else validText text (max * 4) (some max) true

def oneLine (value : Option Json) (max : Nat) : Option Text :=
  (str value).bind fun text => cutLine (flattened text) max

def withoutHeads (ref : Text) : Text :=
  if (lit "refs/heads/").isPrefixOf ref then ref.drop 11 else ref

def branch (value : Option Json) : Option Text :=
  (str value).bind fun ref =>
    let ref := withoutHeads ref
    if (lit "refs/").isPrefixOf ref then none else valid (some (.string ref)) 255 none false

/-! ## Topics -/

def isLineTerminator (u : CodeUnit) : Bool := u == 10 || u == 13 || u == 0x2028 || u == 0x2029

/-- A topic's class, and the ticket that it names. -/
structure Topic where
  ticketId : Option Text
  cls : Text

/-- The parts of `ticket.<id>.<class>`. -/
def matchTicket (topic : Text) : Option (Text × Text) :=
  if (lit "ticket.").isPrefixOf topic then
    match (topic.drop 7).takeWhile (· ≠ 46), (topic.drop 7).dropWhile (· ≠ 46) with
    | id, _ :: cls => if id ≠ [] ∧ cls ≠ [] ∧ cls.any isLineTerminator = false
      then some (id, cls) else none
    | _, [] => none
  else none

def readTopic (topic : Text) : Option Topic :=
  match matchTicket topic with
  | some (id, cls) => some ⟨some id, cls⟩
  | none => if (lit "agent.").isPrefixOf topic then some ⟨none, topic⟩ else none

/-! ## Fields -/

/-- What the caller says about tickets and the repository. -/
structure Options where
  ticketLabel : Option (Text → Text)
  repo : Option Text

/-- The fields as they are cleaned, before they are encoded. -/
structure Cleaned where
  kind : Text
  status : ChannelEventStatus
  summary : Text
  subject : Event.Subject
  source : Source
  actor : Option Text
  url : Option Text
  occurredAt : Option Text
  key : Option Text

/-- What depends on the class. -/
structure Described where
  summary : Text
  status : ChannelEventStatus
  actor : Option Text
  url : Option Text
  prNumber : Option Nat

def lifecycle : List Text := [lit "pr.opened", lit "pr.ready_for_review", lit "pr.merged"]

def kindOf (cls : Text) : Text :=
  if utf8Length cls ≤ 128 ∧ isKind cls = true then cls else lit "custom.unknown"

/-- The number at the end of a pull request's address. -/
def reviewPr (url : Text) : Option Nat :=
  let digits := (url.reverse.takeWhile isDigit).reverse
  let before := (url.reverse.dropWhile isDigit).reverse
  if digits ≠ [] ∧ (lit "/pulls/").isSuffixOf before then
    (some (readDigits 0 digits)).filter fun n => 0 < n ∧ n ≤ maxSafeInteger
  else none

def dotsToSpaces (text : Text) : Text := text.map fun u => if u = 46 then 32 else u

section

-- Whether a text parses as a URL whose protocol is `https:`.
variable (isHttps : Text → Bool)

def https (value : Option Json) : Option Text :=
  (str value).bind fun text =>
    if utf8Length text > 2048 ∨ isWellFormed text = false then none else if isHttps text
      then some text else none

-- `Date.parse`, which gives no time value for a text that is no date.
variable (dateParse : Text → Option Int)

/-- The time value of a text; `time` is its ISO date. -/
def timeValue (value : Option Json) : Option Int := (str value).bind dateParse

def occurredMs (raw : Members) : Option Int :=
  (timeValue dateParse (get raw "timestamp")).orElse fun _ =>
    (timeValue dateParse (get raw "occurred_at")).orElse fun _ =>
      (timeValue dateParse (get raw "first_seen_at")).orElse fun _ =>
        timeValue dateParse (get (object (get raw "ticket_observation")) "occurred_at")

def headShaOf (raw : Members) : Option Text :=
  (sha (get (object (get (object (get raw "pr")) "head")) "sha")).orElse fun _ =>
    (sha (get raw "head_sha")).orElse fun _ => sha (get raw "sha")

def branchOf (raw : Members) : Option Text :=
  (branch (get (object (get (object (get raw "pr")) "head")) "ref")).orElse fun _ =>
    branch (get raw "ref")

def repoOf (opts : Options) (raw : Members) : Option Text :=
  let base := object (get (object (get raw "pr")) "base")
  let candidate := (str (get raw "repo")).orElse fun _ =>
    (str (get (object (get base "repo")) "full_name")).orElse fun _ => opts.repo
  (valid (candidate.map .string) 140 none false).filter isRepo

def eventIdOf (raw : Members) : Option Text :=
  (idOf (get raw "id")).orElse fun _ => idOf (get raw "event_id")

def ticketOf (opts : Options) (raw : Members) (ticketId : Option Text) : Option Text :=
  (ticketId.orElse fun _ => str (get raw "source_ticket_id")).bind fun ticket =>
    valid (some (.string (opts.ticketLabel.getD id ticket))) 256 (some 64) true

def firstPrNumber (raw : Members) : Option Nat :=
  (num (get (object (get raw "pr")) "number")).orElse fun _ => num (get raw "pr_number")

/-- The `switch` over the classes. -/
def describe (raw : Members) (cls : Text) : Described :=
  let pr := object (get raw "pr")
  let comment := object (get raw "comment")
  let headSha := headShaOf raw
  let prNumber := firstPrNumber raw
  let status := statusForKind cls
  -- Only an event about a pull request's course names its author and its page.
  let actor := if lifecycle.contains cls then oneLine (get (object (get pr "user")) "login") 64
    else none
  let url := if lifecycle.contains cls then https isHttps (get pr "html_url") else none
  let commenter := oneLine (get (object (get comment "user")) "login") 64
  let message := oneLine (get raw "message") 200
  let spoken := fun (text : Text) =>
    (oneLine (some (.string (dotsToSpaces text))) 200).getD (lit "event")
  if cls = lit "branch.push" then
    ⟨(headSha.map fun headSha => lit "pushed " ++ headSha.take 7).getD (lit "branch pushed"),
      status, actor, url, prNumber⟩
  else if cls = lit "pr.opened" then
    let draft := if isBool true (get pr "draft") || isBool true (get raw "draft")
      then lit "draft " else []
    ⟨(prNumber.map fun n => draft ++ lit "PR #" ++ decimal n ++ lit " opened").getD
      (lit "PR opened"), status, actor, url, prNumber⟩
  else if cls = lit "pr.ready_for_review"
    then ⟨lit "review requested", status, actor, url, prNumber⟩
  else if cls = lit "pr.merged" then
    ⟨(prNumber.map fun n => lit "PR #" ++ decimal n ++ lit " merged").getD (lit "PR merged"),
      status, actor, url, prNumber⟩
  else if cls = lit "pr.review_comment" then
    -- A review may ask for changes, approve, or only comment.
    let changes := isText "CHANGES_REQUESTED" (get comment "state")
    let approved := isText "APPROVED" (get comment "state")
    let review := if changes then lit "changes requested" else if approved then lit "approved"
      else lit "review comment"
    ⟨(commenter.map fun actor => review ++ lit " by " ++ actor).getD review,
      if changes then .failure else if approved then .success else status, commenter,
        https isHttps (get comment "html_url"),
      reviewPr ((str (get comment "pull_request_url")).getD [])⟩
  else if cls = lit "issue.commented" then
    ⟨(commenter.map fun actor => lit "comment by " ++ actor).getD (lit "comment"),
      status, commenter,
      https isHttps (get comment "html_url"), prNumber⟩
  else if cls = lit "ci.passed" then ⟨lit "CI passed", status, actor, url, prNumber⟩
  else if cls = lit "ci.failed" then
    let check :=
      -- The first check is named, when there is one.
      match get raw "checks" with
      | some (.array checks) => oneLine (get (object checks.head?) "name") 120
      | _ => none
    ⟨(check.map fun check => lit "CI failed: " ++ check).getD (lit "CI failed"), status, actor,
      url, prNumber⟩
  else if cls = lit "pr.parked_ready" then ⟨lit "ready to merge", status, actor, url, prNumber⟩
  else if cls = lit "agent.paused" then ⟨lit "paused", status, actor, url, prNumber⟩
  else if (lit "agent.attention.").isPrefixOf cls then
    ⟨message.getD (lit "attention"),
      -- Attention that is resolved or not needed is only information.
      if isBool false (get raw "needs_attention") || (lit ".resolved").isSuffixOf cls then .info
        else .attention,
      actor, url, prNumber⟩
  else if (lit "agent.").isPrefixOf cls
    then ⟨message.getD (spoken (cls.drop 6)), status, actor, url, prNumber⟩
  -- Any other class is spoken out, its dots as blanks.
  else ⟨spoken cls, status, actor, url, prNumber⟩

/-- What the event is a copy of, if that can be told. -/
def keyOf (opts : Options) (raw : Members) (topic : Topic) (prNumber : Option Nat) : Option Text :=
  let cls := topic.cls
  let comment := object (get raw "comment")
  let isCheck := cls == lit "ci.passed" || cls == lit "ci.failed"
  let isReview := cls == lit "pr.review_comment" && (get comment "state").isSome
  -- The action is what follows `pr.`, unless the event has one of its own.
  let action := if (get raw "topic_class").any fun value => match value with | .string _ => true | _ => false then cls.drop 3
    else (valid (get raw "action") 128 none false).getD (cls.drop 3)
  let lifecycleKey := if lifecycle.contains cls then
      match repoOf opts raw, prNumber, headShaOf raw with
      | some repo, some pr, some head =>
        some (lit "pr:" ++ repo ++ lit ":" ++ action ++ lit ":" ++ decimal pr ++ lit ":" ++ head)
      | _, _, _ => none
    else none
  -- A review comment is one by its identifier.
  let reviewKey := if isReview then
      match repoOf opts raw, prNumber, idOf (get comment "id") with
      | some repo, some pr, some id =>
        some (lit "review:" ++ repo ++ lit ":" ++ decimal pr ++ lit ":" ++ id)
      | _, _, _ => none
    else none
  -- The result of a check is one for each ticket and commit.
  let checkKey := if isCheck then
      match topic.ticketId, headShaOf raw with
      | some ticketId, some head =>
        some (lit "ci:" ++ ticketId ++ lit ":" ++ cls.drop 3 ++ lit ":" ++ head)
      | _, _ => none
    else none
  -- The first of the keys that can be made is taken, and at last the event's own identifier.
  lifecycleKey.orElse fun _ => reviewKey.orElse fun _ => checkKey.orElse fun _ =>
    (eventIdOf raw).map fun id => lit "aiur:" ++ id

/-! ## The event -/

/-- The first code points of a text that fit. -/
def takePoints : Nat → List Text → Text
  | _, [] => []
  | room, point :: rest => if room < utf8Length point then []
    else point ++ takePoints (room - utf8Length point) rest

/-- A summary that is short enough for the line it is shown on. -/
def fitSummary (summary : Text) (subject : Event.Subject) : Text :=
  let budget := 1024 - utf8Length (Event.formatChannelEventLine [] (some subject))
  if budget < utf8Length summary then takePoints (budget - utf8Length (lit "…"))
    (codePoints summary) ++ lit "…" else summary

def subjectOf (opts : Options) (raw : Members) (topic : Topic) : Event.Subject :=
  ⟨ticketOf opts raw topic.ticketId, (describe isHttps raw topic.cls).prNumber, branchOf raw,
    repoOf opts raw, headShaOf raw⟩

def cleaned (opts : Options) (raw : Members) (name : Text) (topic : Topic) : Cleaned :=
  let described := describe isHttps raw topic.cls
  let subject := subjectOf isHttps opts raw topic
  { kind := kindOf topic.cls
    status := described.status
    summary := fitSummary described.summary subject
    subject
    source := ⟨lit "aiur", valid (some (.string name)) 256 none false, eventIdOf raw⟩
    actor := described.actor
    url := described.url
    occurredAt := (occurredMs dateParse raw).map toISOString
    -- A key that is too long is left out.
    key := (keyOf opts raw topic described.prNumber).bind fun key =>
      valid (some (.string key)) 200 none false }

/-- The object that is encoded. -/
def Cleaned.members (cleaned : Cleaned) : Members :=
  [(lit "kind", Json.string cleaned.kind), (lit "status", .string cleaned.status.name),
    (lit "summary", .string cleaned.summary),
    (lit "subject", .object (member (lit "ticket") (cleaned.subject.ticket.map .string)
      ++ member (lit "pr") (cleaned.subject.pr.map fun pr => .number (natNumber pr))
      ++ member (lit "sha") (cleaned.subject.sha.map .string) ++ member (lit "branch")
        (cleaned.subject.branch.map .string)
      ++ member (lit "repo") (cleaned.subject.repo.map .string))),
    (lit "source", .object cleaned.source.members)]
    ++ member (lit "actor") (cleaned.actor.map .string) ++ member (lit "url")
      (cleaned.url.map .string)
    ++ member (lit "occurred_at") (cleaned.occurredAt.map .string) ++ member (lit "key")
      (cleaned.key.map .string)

/-- A pull request that is there has to be an object. -/
def hasPr (raw : Members) : Bool :=
  (lookup raw (lit "pr")).isNone || (object (lookup raw (lit "pr"))).isSome

/-- Maps only event metadata; comment bodies and CI instructions are never read. -/
def mapAiurEvent (opts : Options) (input : Json) : Option Content :=
  match input with
  -- Whatever is missing on the way, there is no event.
  | .object raw =>
    match lookup raw (lit "topic") with
    | some (.string name) =>
      match readTopic name with
      | some topic =>
        -- What the encoder refuses is dropped as a whole.
        if hasPr raw
          then (Event.encodeChannelEvent isHttps
            (.object (cleaned isHttps dateParse opts raw name topic).members)).toOption
        else none
      | none => none
    | _ => none
  | _ => none

end

end Khala.Aiur
