import CoherentCache.Bytes

/-!
# Procedures of the remote store

A remote store runs each operation as one procedure on its side, so that nothing can come between
the comparison of timestamps and the write.  A procedure is sent once as text and called by a handle
from then on.

* `Procedure.text` : the text of a procedure.
-/

namespace CoherentCache

/-- What the remote store can be asked to run on a key. -/
inductive Procedure where
  /-- Store a value. -/
  | set
  /-- Raise the invalidation timestamp. -/
  | invalidate
  /-- Read the visible value. -/
  | get
  /-- Read all fields. -/
  | inspect
deriving DecidableEq

namespace Procedure

/-! ### Parts -/

/-- Reads a record and compares timestamps.  What cannot be read is reported, never taken for a
blank record. -/
def prelude : List String :=
  ["local function read_pair(sec, nsec, name)",
   "  if sec == false and nsec == false then",
   "    return 0, 0, false, nil",
   "  end",
   "  if sec == false or nsec == false then",
   "    return 0, 0, false, 'incomplete timestamp pair ' .. name",
   "  end",
   "  if not string.match(sec, '^-?%d+$') or not string.match(nsec, '^-?%d+$') then",
   "    return 0, 0, false, 'non-integer ' .. name",
   "  end",
   "  local s = tonumber(sec)",
   "  local n = tonumber(nsec)",
   "  if n < 0 or n >= 1000000000 then",
   "    return 0, 0, false, name .. ' out of range'",
   "  end",
   "  return s, n, true, nil",
   "end",
   "",
   "local function load_record(key)",
   "  local f = redis.call('HMGET', key, 'ts_sec', 'ts_nsec', 'inv_sec', 'inv_nsec', 'v')",
   "  local rec = \x7b\x7d",
   "  local err",
   "  rec.ts_sec, rec.ts_nsec, rec.has_ts, err = read_pair(f[1], f[2], 'ts_sec/ts_nsec')",
   "  if err then return nil, err end",
   "  rec.inv_sec, rec.inv_nsec, rec.has_inv, err = read_pair(f[3], f[4], 'inv_sec/inv_nsec')",
   "  if err then return nil, err end",
   "  rec.v = f[5]",
   "  if rec.v ~= false and not rec.has_ts then",
   "    return nil, 'value without write timestamp'",
   "  end",
   "  if rec.v == false and rec.has_ts then",
   "    return nil, 'write timestamp without value'",
   "  end",
   "  return rec, nil",
   "end",
   "",
   "local function older(s1, n1, s2, n2)",
   "  return s1 < s2 or (s1 == s2 and n1 < n2)",
   "end"]

/-- Stores the value `ARGV[1]` unless the record holds something newer. -/
def setBody : List String :=
  ["local rec, err = load_record(KEYS[1])",
   "if err then return redis.error_reply('CORRUPT ' .. KEYS[1] .. ': ' .. err) end",
   "local sec = tonumber(ARGV[2])",
   "local nsec = tonumber(ARGV[3])",
   "if older(sec, nsec, rec.inv_sec, rec.inv_nsec) then",
   "  return 0",
   "end",
   "if rec.v ~= false and older(sec, nsec, rec.ts_sec, rec.ts_nsec) then",
   "  return 0",
   "end",
   "redis.call('HSET', KEYS[1], 'ts_sec', ARGV[2], 'ts_nsec', ARGV[3], 'v', ARGV[1])",
   "redis.call('PERSIST', KEYS[1])",
   "return 1"]

/-- Raises the invalidation timestamp, and lets a record without a value expire. -/
def invalidateBody : List String :=
  ["local rec, err = load_record(KEYS[1])",
   "if err then return redis.error_reply('CORRUPT ' .. KEYS[1] .. ': ' .. err) end",
   "if older(tonumber(ARGV[1]), tonumber(ARGV[2]), rec.inv_sec, rec.inv_nsec) then",
   "  return 0",
   "end",
   "redis.call('HSET', KEYS[1], 'inv_sec', ARGV[1], 'inv_nsec', ARGV[2])",
   "if rec.v == false then",
   "  redis.call('PEXPIRE', KEYS[1], ARGV[3])",
   "end",
   "return 1"]

/-- Gives the value if it is visible. -/
def getBody : List String :=
  ["local rec, err = load_record(KEYS[1])",
   "if err then return redis.error_reply('CORRUPT ' .. KEYS[1] .. ': ' .. err) end",
   "if rec.v == false then return false end",
   "if older(rec.ts_sec, rec.ts_nsec, rec.inv_sec, rec.inv_nsec) then return false end",
   "return rec.v"]

/-- Gives all fields and the remaining time to live. -/
def inspectBody : List String :=
  ["return \x7bredis.call('HGETALL', KEYS[1]), redis.call('PTTL', KEYS[1])\x7d"]

/-! ### Texts -/

/-- A part as text: a line feed, then the lines, each ended by a line feed. -/
def block (lines : List String) : Bytes := 10 :: lines.flatMap fun l => Bytes.ofString l ++ [10]

/-- The text of a procedure. -/
def text : Procedure → Bytes
  | .set => block prelude ++ block setBody
  | .invalidate => block prelude ++ block invalidateBody
  | .get => block prelude ++ block getBody
  | .inspect => block inspectBody

end Procedure

end CoherentCache
