/-!
# HttpCache.Message.Method

Request methods: the standard ones, and any other name. Names are compared with their case.
-/

namespace HttpCache

inductive Method where
  | get
  | post
  | put
  | delete
  | head
  | options
  | patch
  | connect
  | trace
  | custom (name : String)
  deriving DecidableEq, Repr

namespace Method

def text : Method → String
  | get => "GET"
  | post => "POST"
  | put => "PUT"
  | delete => "DELETE"
  | head => "HEAD"
  | options => "OPTIONS"
  | patch => "PATCH"
  | connect => "CONNECT"
  | trace => "TRACE"
  | custom name => name

def ofText (name : String) : Method :=
  match name with
  | "GET" => get
  | "POST" => post
  | "PUT" => put
  | "DELETE" => delete
  | "HEAD" => head
  | "OPTIONS" => options
  | "PATCH" => patch
  | "CONNECT" => connect
  | "TRACE" => trace
  | other => custom other

def isSafe : Method → Bool
  | get | head | options | trace => true
  | _ => false

def isCustom : Method → Bool
  | custom _ => true
  | _ => false

@[simp] theorem text_ofText (name : String) : (ofText name).text = name := by
  unfold ofText
  split <;> rfl

end Method
end HttpCache
