namespace VirtualFs.Glob

/-- What is used of a library of shell patterns. -/
structure Library where
  /-- The test of texts that a pattern is, or what is wrong with the pattern. Where the flag of the
  test is set, only the separator itself matches a separator. -/
  compile : String → Except String (Bool → String → Bool)
  /-- The text as a pattern that only it matches. -/
  escape : String → String

end VirtualFs.Glob
