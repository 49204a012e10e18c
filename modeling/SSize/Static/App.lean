import SSize.Handlers.Strtod
import SSize.Lib.Runs
import Mathlib.Logic.Function.Basic

/-!
# The impression tracker of a page

The callbacks of `static/app.js` run one at a time, each to its end, in any order that
the browser chooses, so every run of a page is a list of callbacks. The observer may
report a card that it no longer watches, and the handle of a timer is any positive
number that is not a running timer's.
-/

namespace SSize.App

open Lib

variable {El : Type*}

/-! ## Numbers -/

/-- `parseInt(text, 10)`: the longest run of digits behind white space and a sign, as the
nearest number of JavaScript. -/
def parseInt (text : Text) : Binary64 :=
  let (negative, rest) := takeSign (text.dropWhile isSpace)
  let digits := rest.takeWhile isDigit
  if digits.isEmpty then .nan
  else .ofRat (if negative then -digitsValue digits else digitsValue digits : Int)

/-- A number is true unless it is a zero or NaN. -/
def truthy : Binary64 → Bool
  | .finite q => q ≠ 0
  | .infinite _ => true
  | .nan => false

/-! ## The state of a page -/

/-- The data attributes of an element. An absent one is an empty text here: neither is a
number, and both are false. -/
structure Dataset where
  item : Text := []
  pos : Text := []
  surface : Text := []

structure Impression where
  item : Binary64
  p : Binary64
  s : Text

inductive Transport where
  | beacon
  | fetch

structure IntersectionEntry (El : Type*) where
  target : El
  isIntersecting : Bool
  intersectionRatio : ℚ

/-- The variables of the script, and what it has asked of the browser: the elements under
observation, the running timers with the elements of their closures, the batches sent. -/
structure Page (El : Type*) where
  queue : List Impression := []
  seen : List Binary64 := []
  timers : El → Option Nat := fun _ => none
  observed : List El := []
  running : List (Nat × El) := []
  sent : List (Transport × List Impression) := []

inductive Callback (El : Type*) where
  | intersection (entry : IntersectionEntry El) (handle : Nat)
  | dwell (handle : Nat)
  | interval
  | pagehide
  | visibilitychange (hidden : Bool)

def visibleRatio : ℚ := 1 / 2

def maxBatch : Nat := 200

def IntersectionEntry.visible (entry : IntersectionEntry El) : Bool :=
  entry.isIntersecting && decide (visibleRatio ≤ entry.intersectionRatio)

/-! ## The functions of the script -/

/-- The object for the queue. -/
def Dataset.impression (data : Dataset) (id : Binary64) : Impression where
  item := id
  p := if truthy (parseInt data.pos) then parseInt data.pos else .finite 0
  s := if data.surface.isEmpty then bytes "feed" else data.surface

namespace Page

def enqueue (dataset : El → Dataset) (page : Page El) (el : El) : Page El :=
  let id := parseInt (dataset el).item
  if !truthy id || page.seen.contains id then page
  else
    let page := { page with seen := page.seen ++ [id] }
    if maxBatch ≤ page.queue.length then page
    else { page with queue := page.queue ++ [(dataset el).impression id] }

/-- `sendBeacon` tells whether `navigator` has it. -/
def flush (sendBeacon : Bool) (page : Page El) (useBeacon : Bool) : Page El :=
  if page.queue.isEmpty then page
  else
    { page with
      queue := []
      sent := page.sent ++ [(if useBeacon && sendBeacon then .beacon else .fetch, page.queue)] }

variable [DecidableEq El]

def setTimer (page : Page El) (el : El) (handle : Nat) : Page El :=
  { page with
    timers := Function.update page.timers el (some handle)
    running := (handle, el) :: page.running }

def clearTimer (page : Page El) (el : El) (handle : Nat) : Page El :=
  { page with
    timers := Function.update page.timers el none
    running := page.running.filter fun timer => timer.1 != handle }

/-- The closure of a timer. The browser has taken the timer off its list. -/
def dwelled (dataset : El → Dataset) (page : Page El) (handle : Nat) (el : El) : Page El :=
  let page := { page with running := page.running.filter fun timer => timer.1 != handle }
  let page := page.enqueue dataset el
  { page with
    timers := Function.update page.timers el none
    observed := page.observed.erase el }

/-- A handle that `setTimeout` may return. -/
def Free (page : Page El) (handle : Nat) : Prop :=
  0 < handle ∧ page.running.lookup handle = none

instance (page : Page El) (handle : Nat) : Decidable (page.Free handle) :=
  inferInstanceAs (Decidable (_ ∧ _))

def observe (page : Page El) (entry : IntersectionEntry El) (handle : Nat) :
    Option (Page El) :=
  if entry.visible then
    if (page.timers entry.target).isSome then some page
    else if page.Free handle then some (page.setTimer entry.target handle)
    else none
  else
    match page.timers entry.target with
    | some t => if t ≠ 0 then some (page.clearTimer entry.target t) else some page
    | none => some page

/-- A dwell timer can fire while it is running; the other callbacks always can. -/
def step (dataset : El → Dataset) (sendBeacon : Bool) (page : Page El) :
    Callback El → Option (Page El)
  | .intersection entry handle => page.observe entry handle
  | .dwell handle => (page.running.lookup handle).map (page.dwelled dataset handle)
  | .interval => some (page.flush sendBeacon false)
  | .pagehide => some (page.flush sendBeacon true)
  | .visibilitychange hidden => some (if hidden then page.flush sendBeacon true else page)

/-- The page as the script leaves it. -/
def start (elements : List El) : Page El := { observed := elements }

/-- What the page has reported, or is about to. -/
def reported (page : Page El) : List Impression :=
  (page.sent.map Prod.snd).flatten ++ page.queue

end Page

end SSize.App
