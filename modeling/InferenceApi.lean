import InferenceApi.CircuitBreaker.Theorems
import InferenceApi.CircuitBreaker.Countdown
import InferenceApi.RateLimiter.Theorems
import InferenceApi.RateLimiter.Sequential
import InferenceApi.Gateway.Admission
import InferenceApi.Gateway.Closing
import InferenceApi.Gateway.LockRelease
import InferenceApi.Gateway.LockOwnership
import InferenceApi.Gateway.CacheSoundness
import InferenceApi.Gateway.SingleFlight
import InferenceApi.Gateway.Transparency
import InferenceApi.Gateway.CacheWrites
import InferenceApi.Gateway.Accounting
import InferenceApi.Services.Relay
import InferenceApi.Api.Health
import InferenceApi.Api.RetryAfter
import InferenceApi.Api.Metrics
import InferenceApi.Gateway.Collapsing
import InferenceApi.Services.Framing
import InferenceApi.Observability
import InferenceApi.TextProcessing
import InferenceApi.HttpStream
import InferenceApi.Services.EndToEnd
import InferenceApi.Gateway.Progress
import InferenceApi.Gateway.Freshness
import InferenceApi.Gateway.Votes
import InferenceApi.Gateway.Uncached
import InferenceApi.Gateway.Stubbed
import InferenceApi.Gateway.Texts
import InferenceApi.RateLimiter.Isolation
import InferenceApi.RateLimiter.Quota
import InferenceApi.Api.Application
import InferenceApi.Models.Serving
import InferenceApi.Api.Statuses
import InferenceApi.RateLimiter.Clocks
import InferenceApi.Gateway.Cancellation
