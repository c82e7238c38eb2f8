/-! URLs as far as configurations look at them: an absolute URL has a scheme, and of any other text
it is said why it is none. How URLs are read is a parameter of all that checks endpoints. -/

namespace LedgerFeed.Net

structure UrlReader where
  /-- The scheme in lower case, or else what is wrong with the text. -/
  scheme : String → Except String String

def UrlReader.ofList (known : List (String × String)) : UrlReader where
  scheme text :=
    match known.lookup text with
    | some scheme => .ok scheme
    | none => .error "relative URL without a base"

end LedgerFeed.Net
